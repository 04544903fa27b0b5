-- SUMMARY: Absolute POSIX paths as lists of names: parents, and paths below others.
import Mathlib.Data.List.Induction
import Mathlib.Data.List.TakeWhile
import Pluton.Posix

/-!
# Paths as names

An absolute path without empty names is a slash and its names, joined by slashes. What
`dirname` and the test for a slash behind a path say of texts is said here of lists.
-/
namespace Posix

/-- A name of a path. -/
def IsName (part : String) : Prop := part ≠ "" ∧ '/' ∉ part.toList

/-- The absolute path with these names. -/
def ofNames (names : List String) : String := "/" ++ "/".intercalate names

/-- The names of an absolute path. -/
def namesOf (path : String) : List String := Js.split '/' (String.ofList (path.toList.drop 1))

/-- `path.posix.basename` -/
def basename (path : String) : String :=
  String.ofList ((path.toList.reverse.dropWhile (· == '/')).takeWhile (· != '/')).reverse

/-- The parents of a path up to the root, which is left out; `fuel` bounds their number. -/
def parents : Nat → String → List String
  | 0, _ => []
  | fuel + 1, path =>
    let parent := dirname path
    if parent == "/" then [] else parent :: parents fuel parent

theorem slash_eq : "/" = String.singleton '/' := by decide

section
variable {names others : List String} {name path : String}

@[simp] theorem ofNames_nil : ofNames [] = "/" := by decide

theorem toList_ofNames (names : List String) :
    (ofNames names).toList = '/' :: ("/".intercalate names).toList := by
  rw [ofNames, String.toList_append]
  rfl

theorem toList_ofNames_concat (hne : names ≠ []) (name : String) :
    (ofNames (names ++ [name])).toList = (ofNames names).toList ++ '/' :: name.toList := by
  have hjoin : "/".intercalate (names ++ [name]) = "/".intercalate names ++ "/" ++ name := by
    rw [String.intercalate_append_of_ne_nil hne (List.cons_ne_nil name []),
      String.intercalate_singleton]
  rw [ofNames, hjoin, ofNames]
  simp only [String.toList_append, List.append_assoc]
  rfl

theorem namesOf_ofNames (hne : names ≠ []) (h : ∀ name ∈ names, '/' ∉ name.toList) :
    namesOf (ofNames names) = names := by
  rw [namesOf, toList_ofNames, List.drop_succ_cons, List.drop_zero, String.ofList_toList, slash_eq]
  exact Js.split_join hne h

theorem ofNames_namesOf (h : Js.startsWith "/" path = true) : ofNames (namesOf path) = path := by
  obtain ⟨rest, hrest⟩ := List.isPrefixOf_iff_prefix.mp h
  apply String.toList_inj.mp
  rw [toList_ofNames, namesOf, ← hrest]
  have hdrop : ("/".toList ++ rest).drop 1 = rest := rfl
  rw [hdrop, Js.split, String.toList_ofList, String.toList_intercalate, List.map_map]
  have hid : (rest.splitOn '/').map (String.toList ∘ String.ofList) = rest.splitOn '/' :=
    List.map_id'' (fun chars => String.toList_ofList) _
  have hslash : "/".toList = ['/'] := by decide
  rw [hid, hslash, List.intercalate_splitOn]
  rfl

theorem not_slash_of_mem_namesOf (h : name ∈ namesOf path) : '/' ∉ name.toList :=
  Js.not_mem_of_mem_split h

theorem namesOf_ne_nil (path : String) : namesOf path ≠ [] := Js.split_ne_nil '/' _

theorem ofNames_inj (hnames : ∀ name ∈ names, IsName name) (hothers : ∀ name ∈ others, IsName name)
    (h : ofNames names = ofNames others) : names = others := by
  have hfirst : ∀ {names : List String}, (∀ name ∈ names, IsName name) →
      ofNames names = ofNames [] → names = [] := by
    intro names hnames h
    cases names with
    | nil => rfl
    | cons name names =>
        have hlist := namesOf_ofNames (List.cons_ne_nil name names) fun x hx => (hnames x hx).2
        rw [h, show namesOf (ofNames []) = [""] by decide] at hlist
        exact absurd (List.cons.inj hlist).1.symm (hnames name List.mem_cons_self).1
  by_cases hnil : names = []
  · subst hnil
    exact (hfirst hothers h.symm).symm
  · by_cases honil : others = []
    · subst honil
      exact hfirst hnames h
    · rw [← namesOf_ofNames hnil fun x hx => (hnames x hx).2, h,
        namesOf_ofNames honil fun x hx => (hothers x hx).2]

/-- The parts of a path that are not empty are its names. -/
theorem filter_split_ofNames (hnames : ∀ name ∈ names, IsName name) :
    (Js.split '/' (ofNames names)).filter (· != "") = names := by
  have hkeep : names.filter (· != "") = names :=
    List.filter_eq_self.mpr fun name hname => bne_iff_ne.mpr (hnames name hname).1
  by_cases hnil : names = []
  · subst hnil
    decide
  · have hparts : Js.split '/' (ofNames names) = "" :: names := by
      have htext : ofNames names = "" ++ String.singleton '/' ++ "/".intercalate names := by
        rw [ofNames, String.empty_append, slash_eq]
      have hempty : Js.split '/' "" = [""] := by decide
      rw [htext, Js.split_append, slash_eq,
        Js.split_join hnil fun name hname => (hnames name hname).2, hempty, List.singleton_append]
    rw [hparts, List.filter_cons_of_neg (by decide), hkeep]

/-! ## Parents -/

theorem dirname_ofNames (hnames : ∀ name ∈ names, IsName name) (hname : IsName name) :
    dirname (ofNames (names ++ [name])) = ofNames names := by
  have hlist : name.toList ≠ [] := fun heq => hname.1 (String.toList_eq_nil_iff.mp heq)
  by_cases hnil : names = []
  · subst hnil
    refine dirname_root ?_ hlist hname.2
    rw [List.nil_append, toList_ofNames, String.intercalate_singleton]
  · have hroot : (ofNames names).toList ≠ ['/'] := by
      intro heq
      have hsame : ofNames names = ofNames [] := String.toList_inj.mp (heq.trans (by decide))
      exact hnil (ofNames_inj hnames nofun hsame)
    have hfront : (ofNames names).toList ≠ [] := by
      rw [toList_ofNames]
      exact List.cons_ne_nil _ _
    rw [dirname_below (toList_ofNames_concat hnil name) hfront hroot hlist hname.2,
      String.ofList_toList]

theorem ofNames_ne_root (hnames : ∀ name ∈ names, IsName name) (hne : names ≠ []) :
    ofNames names ≠ "/" := fun heq =>
  hne (ofNames_inj hnames nofun (heq.trans ofNames_nil.symm))

theorem length_names_le (hnames : ∀ name ∈ names, IsName name) :
    names.length ≤ (ofNames names).length := by
  induction names using List.reverseRecOn with
  | nil => exact Nat.zero_le _
  | append_singleton names name ih =>
      rw [← String.length_toList]
      by_cases hnil : names = []
      · simp [hnil, toList_ofNames]
      · have hle := ih fun x hx => hnames x (List.mem_append_left _ hx)
        rw [← String.length_toList] at hle
        rw [toList_ofNames_concat hnil]
        simp only [List.length_append, List.length_cons, List.length_nil]
        omega

/-- The parents are the paths of the shorter fronts of the names. -/
theorem mem_parents {fuel : Nat} (hnames : ∀ name ∈ names, IsName name) (hname : IsName name)
    (hfuel : names.length ≤ fuel) :
    path ∈ parents fuel (ofNames (names ++ [name])) ↔
    ∃ front, front ≠ [] ∧ front <+: names ∧ path = ofNames front := by
  induction names using List.reverseRecOn generalizing fuel name with
  | nil =>
      refine iff_of_false ?_ ?_
      · cases fuel with
        | zero => exact List.not_mem_nil
        | succ fuel =>
            rw [parents, dirname_ofNames hnames hname, ofNames_nil]
            exact List.not_mem_nil
      · rintro ⟨front, hne, hfront, -⟩
        exact hne (List.prefix_nil.mp hfront)
  | append_singleton names last ih =>
      obtain ⟨hnames', hlast⟩ : (∀ x ∈ names, IsName x) ∧ IsName last :=
        ⟨fun x hx => hnames x (List.mem_append_left _ hx), hnames last (by simp)⟩
      rw [List.length_append, List.length_singleton] at hfuel
      cases fuel with
      | zero => omega
      | succ fuel =>
          have hroot : (ofNames (names ++ [last]) == "/") = false :=
            beq_false_of_ne (ofNames_ne_root hnames (by simp))
          have hbefore := ih hnames' hlast (Nat.le_of_succ_le_succ hfuel)
          rw [parents, dirname_ofNames hnames hname, hroot]
          simp only [Bool.false_eq_true, if_false, List.mem_cons, hbefore]
          constructor
          · rintro (rfl | ⟨front, hne, hfront, rfl⟩)
            · exact ⟨names ++ [last], by simp, List.prefix_refl _, rfl⟩
            · exact ⟨front, hne, hfront.trans (List.prefix_append _ _), rfl⟩
          · rintro ⟨front, hne, hfront, rfl⟩
            rcases List.prefix_concat_iff.mp hfront with rfl | hfront
            · exact .inl rfl
            · exact .inr ⟨front, hne, hfront, rfl⟩

/-! ## Paths below others -/

/-- A path lies strictly below another. -/
def Below (path other : String) : Prop := path.toList ++ ['/'] <+: other.toList

instance (path other : String) : Decidable (Below path other) :=
  inferInstanceAs (Decidable (path.toList ++ ['/'] <+: other.toList))

/-- `other.startsWith(path + '/')` -/
theorem startsWith_slash {other : String} :
    Js.startsWith (path ++ "/") other = true ↔ Below path other := by
  have hslash : "/".toList = ['/'] := by decide
  rw [Js.startsWith, List.isPrefixOf_iff_prefix, String.toList_append, hslash, Below]

/-- A path's names start the names of the paths that continue it behind a slash. -/
theorem below_ofNames_iff (hne : names ≠ []) (hnames : ∀ name ∈ names, IsName name)
    (hothers : ∀ name ∈ others, IsName name) :
    Below (ofNames names) (ofNames others) ↔ names <+: others ∧ names ≠ others := by
  constructor
  · rintro ⟨rest, hrest⟩
    have honil : others ≠ [] := by
      rintro rfl
      have hlength := congrArg List.length hrest
      rw [toList_ofNames] at hlength
      simp [ofNames] at hlength
    have hsplit : namesOf (ofNames others) = names ++ Js.split '/' (String.ofList rest) := by
      have htext : String.ofList ((ofNames others).toList.drop 1) =
          "/".intercalate names ++ String.singleton '/' ++ String.ofList rest := by
        apply String.toList_inj.mp
        rw [← hrest, toList_ofNames]
        simp
      rw [namesOf, htext, Js.split_append, slash_eq, Js.split_join hne fun x hx => (hnames x hx).2]
    rw [namesOf_ofNames honil fun x hx => (hothers x hx).2] at hsplit
    refine ⟨⟨_, hsplit.symm⟩, fun heq => Js.split_ne_nil '/' (String.ofList rest) ?_⟩
    have hlength := congrArg List.length (heq ▸ hsplit)
    rw [List.length_append] at hlength
    exact List.eq_nil_of_length_eq_zero (by omega)
  · rintro ⟨⟨rest, rfl⟩, hdiff⟩
    have hrest : rest ≠ [] := fun heq => hdiff (by rw [heq, List.append_nil])
    refine ⟨("/".intercalate rest).toList, ?_⟩
    rw [ofNames, ofNames, String.intercalate_append_of_ne_nil hne hrest]
    simp [String.toList_append]

end

end Posix
