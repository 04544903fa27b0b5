-- SUMMARY: S3 scopes, when two of them overlap, and the object keys a scope covers.
import Pluton.Ends
import Pluton.Js

/-!
# Scopes

A scope is a canonical bucket location and a key prefix. Two scopes overlap when
their buckets may be the same one and one prefix is the other or a directory above
it; the empty prefix is the whole bucket. `Covers` says which keys of its bucket a
scope owns; two scopes of one bucket share a key exactly when their prefixes nest.
-/
namespace Pluton.Namespaces

/-! ## Overlap -/

/-- What a call throws. -/
inductive Failure where
  | app (statusCode : Nat) (message : String)
  | error (message : String)
  | invalidUrl
  | constraint
  deriving DecidableEq

structure Scope where
  authority : String
  keyPrefix : String
  deriving DecidableEq

/-- The path part of a URL, and nothing for a text that is no URL. -/
abbrev Pathname := String → Option String

def pathnameOf (pathname : Pathname) (authority : String) : Except Failure String :=
  match pathname authority with
  | some path => .ok path
  | none => .error .invalidUrl

section

variable (pathname : Pathname)

/-- Every identical bucket name is a potential alias, on whatever endpoint. -/
def namespaceMayAlias (a b : Scope) : Except Failure Bool := do
  let left ← pathnameOf pathname a.authority
  let right ← pathnameOf pathname b.authority
  return left == right

/-- The prefixes are the same, or one is a directory above the other. -/
def prefixesNest (a b : String) : Bool :=
  a.isEmpty || b.isEmpty || a == b || Js.startsWith (b ++ "/") a || Js.startsWith (a ++ "/") b

def namespaceScopesOverlap (a b : Scope) : Except Failure Bool := do
  let mayAlias ← namespaceMayAlias pathname a b
  return mayAlias && prefixesNest a.keyPrefix b.keyPrefix

end

variable {pathname : Pathname} {a b : Scope} {x y key : String}

theorem namespaceScopesOverlap_eq_true : namespaceScopesOverlap pathname a b = .ok true ↔
    ∃ bucket, pathname a.authority = some bucket ∧ pathname b.authority = some bucket ∧
      prefixesNest a.keyPrefix b.keyPrefix = true := by
  unfold namespaceScopesOverlap namespaceMayAlias pathnameOf
  cases ha : pathname a.authority with
  | none => simp [bind, Except.bind]
  | some left =>
      cases hb : pathname b.authority with
      | none => simp [bind, Except.bind]
      | some right =>
          simp only [bind, Except.bind, pure, Except.pure, Except.ok.injEq,
            Bool.and_eq_true, beq_iff_eq, Option.some.injEq]
          constructor
          · rintro ⟨rfl, hnest⟩
            exact ⟨left, rfl, rfl, hnest⟩
          · rintro ⟨bucket, rfl, rfl, hnest⟩
            exact ⟨rfl, hnest⟩

/-! ## Keys -/

/-- The keys of its bucket under a prefix: all of them for the empty one, else the
prefix itself and what is below it. -/
def Covers (x key : String) : Prop := x.isEmpty = true ∨ (x ++ "/").toList <+: (key ++ "/").toList

theorem startsWith_slash {x y : String} (h : (x ++ "/").toList <+: (y ++ "/").toList) :
    x = y ∨ Js.startsWith (x ++ "/") y = true := by
  have hsplit (text : String) : (text ++ "/").toList = text.toList ++ ['/'] := String.toList_append
  rw [hsplit y] at h
  rcases List.prefix_concat_iff.mp h with heq | hbelow
  · rw [hsplit x] at heq
    exact .inl (String.toList_inj.mp (List.append_cancel_right heq))
  · exact .inr (List.isPrefixOf_iff_prefix.mpr hbelow)

theorem prefixesNest_of_covers (hx : Covers x key) (hy : Covers y key) :
    prefixesNest x y = true := by
  unfold prefixesNest
  rcases hx with hx | hx
  · simp [hx]
  rcases hy with hy | hy
  · simp [hy]
  -- Both are prefixes of one text, so one is a prefix of the other.
  rcases List.prefix_or_prefix_of_prefix hx hy with h | h
  · rcases startsWith_slash h with rfl | hbelow
    · simp
    · simp [hbelow]
  · rcases startsWith_slash h with rfl | hbelow
    · simp
    · simp [hbelow]

end Pluton.Namespaces
