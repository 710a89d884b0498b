import FrontEnd.Output
import FrontEnd.Proofs.Text.Printable

/-!
# Lines that are written

What is written to the standard output tells its lines apart, as long as they hold printable
characters only: no line break is in them, and no escape sequence that could be taken out.

* `Output.written_eq` — such a line is written as it is, on a terminal and elsewhere.
* `Output.standardOutput_inj` — the lines are known from what is written.
-/

set_option autoImplicit false

namespace FrontEnd.Output

/-- Where there is no escape character nothing is taken out. -/
theorem withoutEscapes_eq {text : List Char} (h : '\x1b' ∉ text) (bound : Nat) :
    withoutEscapes bound text = text := by
  induction text generalizing bound with
  | nil => rw [withoutEscapes]
  | cons c text ih =>
    obtain ⟨hc, hrest⟩ := not_or.mp (mt List.mem_cons.mpr h)
    cases bound with
    | zero => rw [withoutEscapes]; nofun
    | succ bound =>
      rw [withoutEscapes, ih hrest]
      rintro rest rfl
      exact absurd rfl hc

/-- A printable text is written as it is. -/
theorem written_eq {text : String} (h : Text.AllPrintable text) (terminal : Bool) :
    written terminal text = text := by
  have hescape : '\x1b' ∉ text.toList := fun hc => absurd (h _ hc) (by decide)
  cases terminal with
  | true => rfl
  | false => rw [written, if_neg (by decide), withoutEscapes_eq hescape, String.ofList_toList]

/-- A line and what is behind its break are known from both. -/
theorem append_break_inj {line other rest more : List Char} (hline : '\n' ∉ line)
    (hother : '\n' ∉ other) (h : line ++ '\n' :: rest = other ++ '\n' :: more) :
    line = other ∧ rest = more := by
  induction line generalizing other with
  | nil =>
    cases other with
    | nil => exact ⟨rfl, (List.cons.inj h).2⟩
    | cons d other => exact absurd ((List.cons.inj h).1 ▸ List.mem_cons_self) hother
  | cons c line ih =>
    cases other with
    | nil => exact absurd ((List.cons.inj h).1 ▸ List.mem_cons_self) hline
    | cons d other =>
      obtain ⟨rfl, hrest⟩ := List.cons.inj h
      obtain ⟨rfl, hmore⟩ := ih (fun hc => hline (List.mem_cons_of_mem c hc))
        (fun hc => hother (List.mem_cons_of_mem c hc)) hrest
      exact ⟨rfl, hmore⟩

/-- What is written of a printable line is the line and a break. -/
theorem toList_standardOutput_cons {line : String} (h : Text.AllPrintable line) (terminal : Bool)
    (lines : List String) :
    (standardOutput terminal ((line :: lines).map .out)).toList =
      line.toList ++ '\n' :: (standardOutput terminal (lines.map .out)).toList := by
  rw [standardOutput, List.map_cons, List.map_cons, String.join_cons]
  dsimp only
  rw [written_eq h, String.toList_append, String.toList_append, List.append_assoc]
  rfl

/-- **The lines are known from what is written.** -/
theorem standardOutput_inj {terminal : Bool} {lines others : List String}
    (hlines : ∀ line ∈ lines, Text.AllPrintable line)
    (hothers : ∀ line ∈ others, Text.AllPrintable line)
    (h : standardOutput terminal (lines.map .out) = standardOutput terminal (others.map .out)) :
    lines = others := by
  have hbreak : ∀ line : String, Text.AllPrintable line → '\n' ∉ line.toList :=
    fun line hline hc => absurd (hline _ hc) (by decide)
  induction lines generalizing others with
  | nil =>
    cases others with
    | nil => rfl
    | cons other others =>
      have hempty := congrArg String.toList h
      rw [toList_standardOutput_cons (hothers other List.mem_cons_self)] at hempty
      exact absurd hempty.symm (by simp [standardOutput])
  | cons line lines ih =>
    obtain ⟨hline, hlines⟩ := List.forall_mem_cons.mp hlines
    cases others with
    | nil =>
      have hempty := congrArg String.toList h
      rw [toList_standardOutput_cons hline] at hempty
      exact absurd hempty (by simp [standardOutput])
    | cons other others =>
      obtain ⟨hother, hothers⟩ := List.forall_mem_cons.mp hothers
      have hchars := congrArg String.toList h
      rw [toList_standardOutput_cons hline, toList_standardOutput_cons hother] at hchars
      obtain ⟨hsame, hrest⟩ := append_break_inj (hbreak line hline) (hbreak other hother) hchars
      rw [String.toList_inj.mp hsame, ih hlines hothers (String.toList_inj.mp hrest)]

end FrontEnd.Output
