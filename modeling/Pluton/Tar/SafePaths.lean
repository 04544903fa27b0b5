-- SUMMARY: What `managedSnapshotPath` accepts: absolute paths of safe names.
import Pluton.PathNames
import Pluton.Tar.Policy

/-!
# Safe paths
-/
namespace Pluton.Tar

open Posix

/-- What `managedSnapshotPath` asks of a path. -/
structure SafePath (path : String) : Prop where
  length : Js.length path ≤ 1025
  absolute : Js.startsWith "/" path = true
  backslash : Js.includes '\\' path = false
  replacement : Js.includes '\uFFFD' path = false
  controls : ∀ ch ∈ path.toList, isControl ch = false
  names : ∀ name ∈ namesOf path, name ≠ "" ∧ name ≠ "." ∧ name ≠ ".."

section
variable {path value : String}

theorem managedSnapshotPath_eq_ok :
    managedSnapshotPath path = .ok value ↔ value = path ∧ SafePath path := by
  unfold managedSnapshotPath
  split
  next hunsafe =>
    refine iff_of_false nofun ?_
    rintro ⟨-, hlength, habsolute, hbackslash, hreplacement, hcontrols, hnames⟩
    have hcontrols' : path.toList.any isControl = false :=
      List.any_eq_false.mpr fun ch hch => by rw [hcontrols ch hch]; exact Bool.false_ne_true
    have hnames' :
        (namesOf path).any (fun part => part == "" || part == "." || part == "..") = false :=
      List.any_eq_false.mpr fun name hname => by
        obtain ⟨hempty, hdot, hup⟩ := hnames name hname
        simp [hempty, hdot, hup]
    rw [namesOf] at hnames'
    simp only [habsolute, hbackslash, hreplacement, hcontrols', hnames',
      Bool.not_true, Bool.or_false, decide_eq_true_eq] at hunsafe
    omega
  next hsafe =>
    simp only [Bool.or_eq_true, not_or, Bool.not_eq_true, decide_eq_false_iff_not,
      Nat.not_lt, gt_iff_lt] at hsafe
    obtain ⟨⟨⟨⟨⟨hlength, habsolute⟩, hbackslash⟩, hreplacement⟩, hcontrols⟩, hnames⟩ := hsafe
    constructor
    · rintro ⟨⟩
      refine ⟨rfl, hlength, by simpa using habsolute, hbackslash, hreplacement, ?_, ?_⟩
      · exact fun ch hch => eq_false_of_ne_true (List.any_eq_false.mp hcontrols ch hch)
      · intro name hname
        have hpart := List.any_eq_false.mp hnames name hname
        simp only [Bool.or_eq_true, beq_iff_eq, not_or] at hpart
        exact ⟨hpart.1.1, hpart.1.2, hpart.2⟩
    · rintro ⟨rfl, -⟩
      rfl

theorem safePath_iff : managedSnapshotPath path = .ok path ↔ SafePath path :=
  managedSnapshotPath_eq_ok.trans (and_iff_right rfl)

theorem SafePath.isName (h : SafePath path) :
    ∀ name ∈ namesOf path, IsName name := fun name hname =>
  ⟨(h.names name hname).1, not_slash_of_mem_namesOf hname⟩

theorem SafePath.ofNames_namesOf (h : SafePath path) : ofNames (namesOf path) = path :=
  Posix.ofNames_namesOf h.absolute

theorem SafePath.exists_concat (h : SafePath path) : ∃ names name, namesOf path = names ++ [name] ∧
    (∀ x ∈ names, IsName x) ∧ IsName name := by
  have hnames := h.isName
  rcases List.eq_nil_or_concat (namesOf path) with hnil | ⟨names, name, hconcat⟩
  · exact absurd hnil (namesOf_ne_nil path)
  · rw [List.concat_eq_append] at hconcat
    rw [hconcat] at hnames
    exact ⟨names, name, hconcat, fun x hx => hnames x (List.mem_append_left _ hx),
      hnames name (List.mem_append_right _ (List.mem_singleton_self name))⟩

end

end Pluton.Tar
