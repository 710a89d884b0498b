import FrontEnd.Proofs.Lexer.Tiles

/-!
# The tokens of a source tile it

* `tokenize_tiles` — what the characters of a source are: they belong to tokens or to gaps, and
  every newline is a separator, skipped inside brackets, or quoted.
-/

set_option autoImplicit false

namespace FrontEnd

/-- **The tokens of a source are its tiles.** They have texts that are not empty and stand in the
source one after the other. All that is between them is blank, with newlines only where a bracket is
open that an earlier token opened, and a token whose text is a newline is a separator where no
bracket is open. If the source can be split into tokens, they reach to its end, and every newline of
it is a separator, or in a gap with a bracket open, or in a quoted text. Otherwise they reach to
where the fault stands, and the cursor was left behind what the failing scan read. -/
theorem tokenize_tiles (file source : String) :
    match tokenize file source with
    | (tokens, none, last) => ∃ pieces gap,
        Tiling file (.start source.toList) [] tokens pieces gap ∧
        Piece.texts pieces ++ gap = source.toList ∧
        last.cursor.pos = source.length ∧
        ∀ before behind, source.toList = before ++ '\n' :: behind →
          Newline file (.start source.toList) [] pieces gap before
    | (tokens, some fault, last) => ∃ pieces gap read,
        Tiling file (.start source.toList) [] tokens pieces gap ∧
        Piece.texts pieces ++ gap ++ read ++ last.cursor.rest = source.toList ∧
        last.cursor.pos = (Piece.texts pieces ++ gap ++ read).length ∧
        ∀ diagnostic, fault = .diagnostic diagnostic → diagnostic.location =
          ((Cursor.start source.toList).move (Piece.texts pieces ++ gap).length).location file := by
  have htiled := tiled_tokenize file source
  have hpos : ∀ read behind, read ++ behind = source.toList →
      ((Cursor.start source.toList).move read.length).pos = read.length := by
    intro read behind hread
    have hcount := Cursor.pos_add_length_move read.length (.start source.toList)
    have hlength := congrArg List.length hread
    rw [Cursor.length_rest_move] at hcount
    simp only [Cursor.start] at hcount ⊢
    rw [List.length_append] at hlength
    omega
  generalize tokenize file source = result at htiled ⊢
  obtain ⟨tokens, _ | fault, last⟩ := result
  · obtain ⟨pieces, gap, htiling, hall, hlast⟩ := htiled
    refine ⟨pieces, gap, htiling, hall, ?_, ?_⟩
    · rw [hlast, hpos _ [] (by rw [List.append_nil]; exact hall), hall]
      exact String.length_toList
    · intro before behind hsource
      obtain ⟨after, htiles, hgap⟩ := htiling.tiles
      exact htiles.newline hgap (hall.trans hsource)
  · obtain ⟨pieces, gap, read, htiling, hall, hlast, hplace⟩ := htiled
    refine ⟨pieces, gap, read, htiling, hall, ?_, hplace⟩
    rw [hlast, hpos _ _ hall]

end FrontEnd
