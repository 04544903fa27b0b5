-- SUMMARY: POSIX paths as the `path.posix` functions of the runtime treat them.
import Pluton.Js

/-!
# POSIX paths
-/
namespace Posix

/-- `path.posix.dirname` -/
def dirname (path : String) : String :=
  match path.toList with
  | [] => "."
  | ch :: tail =>
    -- what stays in front of the last name, from its end; it ends in the slash
    let front := (tail.reverse.dropWhile (· == '/')).dropWhile (· != '/')
    if front.isEmpty then (if ch == '/' then "/" else ".")
    else if ch == '/' && front.length == 1 then "//"
    else String.ofList ((ch :: tail).take front.length)

/-! ## The parent of a path -/

/-- What stays in front of the last name, from its end. -/
theorem front_reverse {front name : List Char} (hname : name ≠ []) (hslash : '/' ∉ name) :
    ((name.reverse ++ front).dropWhile (· == '/')).dropWhile (· != '/') =
      front.dropWhile (· != '/') := by
  have hplain : ∀ ch ∈ name.reverse, (ch != '/') = true := by
    intro ch hch
    rw [bne_iff_ne]
    rintro rfl
    exact hslash (List.mem_reverse.mp hch)
  have hkeep : (name.reverse ++ front).dropWhile (· == '/') = name.reverse ++ front := by
    cases hcase : name.reverse with
    | nil => exact absurd (List.reverse_eq_nil_iff.mp hcase) hname
    | cons ch rest =>
        have hch := hplain ch (by simp [hcase])
        rw [bne_iff_ne] at hch
        rw [List.cons_append, List.dropWhile_cons_of_neg (by simpa using hch)]
  rw [hkeep, List.dropWhile_append_of_pos hplain]

theorem dirname_root {path : String} {name : List Char} (hpath : path.toList = '/' :: name)
    (hname : name ≠ []) (hslash : '/' ∉ name) : dirname path = "/" := by
  have hfront := @front_reverse [] name hname hslash
  rw [List.append_nil, List.dropWhile_nil] at hfront
  unfold dirname
  rw [hpath]
  dsimp only
  rw [hfront]
  rfl

theorem dirname_below {path : String} {front name : List Char}
    (hpath : path.toList = front ++ '/' :: name) (hfront : front ≠ []) (hroot : front ≠ ['/'])
    (hname : name ≠ []) (hslash : '/' ∉ name) :
    dirname path = String.ofList front := by
  cases front with
  | nil => exact absurd rfl hfront
  | cons ch rest =>
      have hreverse : (rest ++ '/' :: name).reverse = name.reverse ++ ('/' :: rest.reverse) := by
        simp
      have hdrop := @front_reverse ('/' :: rest.reverse) name hname hslash
      rw [List.dropWhile_cons_of_neg (by decide)] at hdrop
      have hnotroot : (ch == '/' && ('/' :: rest.reverse).length == 1) = false := by
        cases rest with
        | nil =>
            have hch : ch ≠ '/' := fun heq => hroot (heq ▸ rfl)
            simp [hch]
        | cons => simp
      have htake :
          (ch :: (rest ++ '/' :: name)).take ('/' :: rest.reverse).length = ch :: rest := by
        rw [List.length_cons, List.length_reverse, List.take_succ_cons, List.take_left]
      unfold dirname
      rw [hpath, List.cons_append]
      dsimp only
      rw [hreverse, hdrop, hnotroot, htake]
      rfl

/-- The names that are left when `.` and `..` are resolved. A path from the root has
nothing above it, a relative one keeps the `..` that it starts with. -/
def resolve (absolute : Bool) (parts : List String) : List String :=
  parts.foldl (fun stack part =>
    if part == "" || part == "." then stack
    else if part == ".." then
      match stack.getLast? with
      | some top => if top == ".." then stack ++ [".."] else stack.dropLast
      | none => if absolute then [] else [".."]
    else stack ++ [part]) []

/-- `path.posix.normalize` -/
def normalize (path : String) : String :=
  if path == "" then "."
  else
    let absolute := Js.startsWith "/" path
    let body := "/".intercalate (resolve absolute (Js.split '/' path))
    let tail := if Js.endsWith "/" path then "/" else ""
    if absolute then (if body == "" then "/" else "/" ++ body ++ tail)
    else (if body == "" then "." else body) ++ tail

/-- `path.posix.join(directory, target)` -/
def join (directory target : String) : String :=
  if directory == "" then normalize target
  else if target == "" then normalize directory
  else normalize (directory ++ "/" ++ target)

end Posix
