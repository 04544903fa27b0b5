-- SUMMARY: Anchored patterns over character classes, as the validators of both sides use them.
import Pluton.Js

/-!
# Patterns

`headed` is `/^[head][tail]*$/`. A pattern over classes of ASCII characters measures a
text in characters, its length is counted in UTF-16 code units: for a text that
matches, the two are the same.
-/
namespace Pattern

/-- `[A-Za-z0-9]` -/
def alnum (ch : Char) : Bool := ch.isAlphanum

/-- `[A-Za-z0-9_]` -/
def word (ch : Char) : Bool := alnum ch || ch == '_'

/-- `[A-Za-z0-9_-]` -/
def dashed (ch : Char) : Bool := word ch || ch == '-'

/-- `[A-Za-z0-9_.-]` -/
def dotted (ch : Char) : Bool := dashed ch || ch == '.'

/-- `/^[cls]*$/` -/
def all (cls : Char → Bool) (text : String) : Bool := text.toList.all cls

/-- `/^[head][tail]*$/` -/
def headed (head tail : Char → Bool) (text : String) : Bool :=
  match text.toList with
  | [] => false
  | first :: rest => head first && rest.all tail

/-- `/^start[tail]+$/` -/
def after (start : String) (tail : Char → Bool) (text : String) : Bool :=
  Js.startsWith start text && start.toList.length < text.toList.length &&
    (text.toList.drop start.toList.length).all tail

/-- `/^[head][tail]*ending$/` -/
def ending (head tail : Char → Bool) (last text : String) : Bool :=
  Js.endsWith last text &&
    headed head tail (String.ofList (text.toList.take (text.toList.length - last.toList.length)))

/-! ## Lengths -/

/-- The characters of a class are single code units. -/
def Narrow (cls : Char → Bool) : Prop := ∀ ch, cls ch = true → ch.toNat < 0x10000

variable {head tail cls : Char → Bool} {text start last : String}

theorem narrow_alnum : Narrow alnum := by
  intro ch h
  simp only [alnum, Char.isAlphanum] at h
  delta Char.isAlpha at h
  delta Char.isUpper Char.isLower at h
  simp only [Char.isDigit, Bool.or_eq_true, Bool.and_eq_true, decide_eq_true_eq] at h
  rcases h with (⟨-, h⟩ | ⟨-, h⟩) | ⟨-, h⟩
  all_goals
    have hle := UInt32.le_iff_toNat_le.mp h
    simp at hle
    omega

theorem narrow_or {ch : Char} (h : Narrow cls) (hch : ch.toNat < 0x10000) :
    Narrow fun other => cls other || other == ch := by
  intro other hother
  rcases Bool.or_eq_true_iff.mp hother with hcls | heq
  · exact h other hcls
  · rw [beq_iff_eq.mp heq]
    exact hch

theorem narrow_word : Narrow word := narrow_or narrow_alnum (by decide)

theorem narrow_dashed : Narrow dashed := narrow_or narrow_word (by decide)

theorem narrow_dotted : Narrow dotted := narrow_or narrow_dashed (by decide)

theorem length_of_narrow (h : ∀ ch ∈ text.toList, ch.toNat < 0x10000) :
    Js.length text = text.toList.length := by
  unfold Js.length
  have hones : text.toList.map (fun ch => if ch.toNat < 0x10000 then 1 else 2) =
      text.toList.map fun _ => 1 := by
    apply List.map_congr_left
    intro ch hch
    rw [if_pos (h ch hch)]
  rw [hones]
  simp

/-- What holds of both classes holds of every character of the text. -/
theorem forall_of_headed {P : Char → Prop} (h : headed head tail text = true)
    (hhead : ∀ ch, head ch = true → P ch) (htail : ∀ ch, tail ch = true → P ch) :
    ∀ ch ∈ text.toList, P ch := by
  unfold headed at h
  cases hchars : text.toList with
  | nil => simp
  | cons first rest =>
      simp only [hchars, Bool.and_eq_true, List.all_eq_true] at h
      exact List.forall_mem_cons.mpr ⟨hhead first h.1, fun ch hch => htail ch (h.2 ch hch)⟩

theorem length_of_headed (h : headed head tail text = true) (hhead : Narrow head)
    (htail : Narrow tail) :
    Js.length text = text.toList.length :=
  length_of_narrow (forall_of_headed h hhead htail)

theorem length_of_after (h : after start tail text = true) (htail : Narrow tail)
    (hstart : ∀ ch ∈ start.toList, ch.toNat < 0x10000) : Js.length text = text.toList.length := by
  apply length_of_narrow
  simp only [after, Js.startsWith, Bool.and_eq_true, List.isPrefixOf_iff_prefix,
    List.all_eq_true] at h
  obtain ⟨⟨⟨rest, hrest⟩, -⟩, hall⟩ := h
  rw [← hrest, List.drop_left] at hall
  intro ch hch
  rw [← hrest] at hch
  rcases List.mem_append.mp hch with hfirst | hlater
  · exact hstart ch hfirst
  · exact htail ch (hall ch hlater)

theorem length_of_ending (h : ending head tail last text = true) (hhead : Narrow head)
    (htail : Narrow tail) (hlast : ∀ ch ∈ last.toList, ch.toNat < 0x10000) :
    Js.length text = text.toList.length := by
  apply length_of_narrow
  simp only [ending, Js.endsWith, Bool.and_eq_true, List.isSuffixOf_iff_suffix] at h
  obtain ⟨⟨start, hstart⟩, hheaded⟩ := h
  have htake : text.toList.take (text.toList.length - last.toList.length) = start := by
    simp [← hstart]
  rw [htake] at hheaded
  intro ch hch
  rw [← hstart] at hch
  rcases List.mem_append.mp hch with hfirst | hlater
  · exact forall_of_headed hheaded hhead htail ch (by simpa using hfirst)
  · exact hlast ch hlater

end Pattern
