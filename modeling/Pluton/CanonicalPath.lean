-- SUMMARY: Absolute paths without dots: resolving leaves them alone, and joining puts a name behind.
import Pluton.PathNames

/-!
# Canonical paths

The runtime's path functions work on texts and resolve `.` and `..` in them. On the paths that a
file system gives out, which have neither, they are operations on lists of names: `resolve`
leaves the names alone, and `join` puts one behind.
-/
namespace Posix

/-- A name that stands for itself. -/
def IsPlain (name : String) : Prop := IsName name ∧ name ≠ "." ∧ name ≠ ".."

/-- The path is absolute and resolved. -/
def Canonical (path : String) : Prop :=
  ∃ names, (∀ name ∈ names, IsPlain name) ∧ path = ofNames names

/-- The names of `path.posix.resolve(base, target)`, with an absolute base. -/
def resolveNames (base target : String) : List String :=
  resolve true (Js.split '/' (if Js.startsWith "/" target then target else base ++ "/" ++ target))

/-- `path.posix.resolve(base, target)`, with an absolute base. -/
def resolveFrom (base target : String) : String := ofNames (resolveNames base target)

/-- What is behind the front that two lists share. -/
def behindCommon : List String → List String → List String × List String
  | a :: as, b :: bs => if a = b then behindCommon as bs else (a :: as, b :: bs)
  | as, bs => (as, bs)

/-- `path.posix.relative(source, target)`, of absolute paths. -/
def relative (source target : String) : String :=
  let apart := behindCommon (resolveNames "/" source) (resolveNames "/" target)
  "/".intercalate (apart.1.map (fun _ => "..") ++ apart.2)

example : relative "/srv/data" "/srv/data/a/b" = "a/b" := by decide +kernel

section
variable {names others rest parts : List String} {name path : String}

/-! ## Resolving what is resolved -/

theorem IsPlain.isName (h : ∀ name ∈ names, IsPlain name) : ∀ name ∈ names, IsName name :=
  fun name hname => (h name hname).1

theorem foldl_eq_filter {keep : String → Bool} {step : List String → String → List String} :
    ∀ (parts stack : List String),
      (∀ stack, ∀ part ∈ parts, step stack part = if keep part then stack ++ [part] else stack) →
      parts.foldl step stack = stack ++ parts.filter keep
  | [], stack, _ => (List.append_nil stack).symm
  | part :: parts, stack, h => by
      rw [List.foldl_cons, foldl_eq_filter parts _ fun stack other hother => h stack other
        (List.mem_cons_of_mem part hother), h stack part List.mem_cons_self]
      cases hkeep : keep part with
      | false => rw [if_neg Bool.false_ne_true, List.filter_cons_of_neg (by simp [hkeep])]
      | true =>
          rw [if_pos rfl, List.filter_cons_of_pos hkeep, List.append_assoc, List.singleton_append]

theorem resolve_of_plain (absolute : Bool) (h : ∀ part ∈ parts, part = "" ∨ IsPlain part) :
    resolve absolute parts = parts.filter (· != "") := by
  refine (foldl_eq_filter parts [] fun stack part hpart => ?_).trans (List.nil_append _)
  rcases h part hpart with rfl | ⟨⟨hempty, -⟩, hdot, hdotdot⟩
  · rfl
  · simp [hempty, hdot, hdotdot]

theorem plain_of_mem_split (h : ∀ name ∈ names, IsPlain name) {part : String}
    (hpart : part ∈ Js.split '/' (ofNames names)) :
    part = "" ∨ IsPlain part := by
  by_cases hempty : part = ""
  · exact .inl hempty
  · have hkept : part ∈ (Js.split '/' (ofNames names)).filter (· != "") :=
      List.mem_filter.mpr ⟨hpart, bne_iff_ne.mpr hempty⟩
    rw [filter_split_ofNames (IsPlain.isName h)] at hkept
    exact .inr (h part hkept)

theorem split_of_isName (h : IsName name) : Js.split '/' name = [name] := by
  have hsplit :=
    Js.split_join (List.cons_ne_nil name []) fun part hpart => List.mem_singleton.mp hpart ▸ h.2
  rwa [String.intercalate_singleton] at hsplit

theorem join_ofNames (h : ∀ name ∈ names, IsPlain name) (hname : IsPlain name) :
    join (ofNames names) name = ofNames (names ++ [name]) := by
  have hslash : "/".toList = ['/'] := by decide
  have hne : ofNames names ≠ "" := fun heq => by
    have hlist := congrArg String.toList heq
    rw [toList_ofNames] at hlist
    exact List.cons_ne_nil _ _ hlist
  have htext : ofNames names ++ "/" ++ name ≠ "" := fun heq => by
    have hlist := congrArg String.toList heq
    rw [String.toList_append, String.toList_append, toList_ofNames] at hlist
    exact List.cons_ne_nil _ _ hlist
  have habsolute : Js.startsWith "/" (ofNames names ++ "/" ++ name) = true := by
    rw [Js.startsWith, String.toList_append, String.toList_append, toList_ofNames, hslash,
      List.isPrefixOf_iff_prefix]
    exact ⟨_, rfl⟩
  have hparts : Js.split '/' (ofNames names ++ "/" ++ name) =
      Js.split '/' (ofNames names) ++ [name] := by
    rw [slash_eq, Js.split_append, split_of_isName hname.1]
  have hresolve : resolve true (Js.split '/' (ofNames names) ++ [name]) = names ++ [name] := by
    rw [resolve_of_plain true fun part hpart =>
      (List.mem_append.mp hpart).elim (plain_of_mem_split h)
      fun hpart => .inr (List.mem_singleton.mp hpart ▸ hname), List.filter_append,
      filter_split_ofNames (IsPlain.isName h),
      List.filter_cons_of_pos (by simp [hname.1.1]), List.filter_nil]
  have htail : Js.endsWith "/" (ofNames names ++ "/" ++ name) = false := by
    rw [Js.endsWith, Bool.eq_false_iff, Ne, List.isSuffixOf_iff_suffix, hslash,
      String.toList_append]
    rintro ⟨front, hfront⟩
    have hlast := congrArg List.getLast? hfront
    have hlist : name.toList ≠ [] := fun heq => hname.1.1 (String.toList_eq_nil_iff.mp heq)
    rw [List.getLast?_concat, List.getLast?_append_of_ne_nil _ hlist] at hlast
    exact hname.1.2 (List.mem_of_getLast? hlast.symm)
  have hbody : "/".intercalate (names ++ [name]) ≠ "" := fun heq => by
    have hsame : ofNames (names ++ [name]) = ofNames [] := by rw [ofNames, heq]; rfl
    refine ofNames_ne_root (fun other hother => ?_) (List.concat_ne_nil name names)
      (hsame.trans ofNames_nil)
    exact (List.mem_append.mp hother).elim (fun hmem => (h other hmem).1) fun hmem =>
      List.mem_singleton.mp hmem ▸ hname.1
  rw [join, if_neg (by simp [hne]), if_neg (by simp [hname.1.1]), normalize,
    if_neg (by simp [htext]), habsolute, hparts]
  simp only [hresolve, htail, if_true]
  rw [if_neg (by simp [hbody]), if_neg Bool.false_ne_true, String.append_empty]
  rfl

end

end Posix
