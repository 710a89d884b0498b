import FrontEnd.Proofs.Lexer.Laid
import FrontEnd.Proofs.Lexer.Scanned
import FrontEnd.Proofs.Source.Spaced

/-!
# Names of files

What a source says does not depend on the file that it is in. The name of the file is in the
locations only.

* `laid_of_tokenize` — a source lays out the lexemes of its tokens.
* `tokenize_filed` — so in every file it has the same lexemes.
* `parse_filed` — and the same declarations, up to locations.
-/

set_option autoImplicit false

namespace FrontEnd

/-- A run lays out the lexemes of its tokens. -/
theorem View.Run.laid {file : String} {view : View} {tokens : List Token}
    (h : Run file view tokens) : Laid view.stack (tokens.map Token.lexeme) view.cursor.rest := by
  induction h with
  | @none view hrest => exact .none (hrest ▸ view.isGap_skipped)
  | @token view next token tokens behind hpasses hmore ih =>
    have hnewline : token.text.toList = ['\n'] → view.stack = [] :=
      fun htext => hpasses.newline (String.toList_inj.mp htext)
    rw [hpasses.behind] at ih
    rw [hpasses.rest]
    exact .spelled view.isGap_skipped hpasses.reads hnewline hpasses.tracked ih

/-- A source lays out the lexemes of its tokens. -/
theorem laid_of_tokenize {file source : String} {tokens : List Token} {last : Lexer}
    (h : tokenize file source = (tokens, none, last)) :
    Laid [] (tokens.map Token.lexeme) source.toList :=
  (run_of_tokenize h).laid

variable {file source : String}

/-- In another file a source has the same lexemes. -/
theorem tokenize_filed {tokens : List Token} {last : Lexer}
    (h : tokenize file source = (tokens, none, last)) (other : String) :
    ∃ tokens' last', tokenize other source = (tokens', none, last') ∧
      tokens'.map Token.lexeme = tokens.map Token.lexeme := by
  obtain ⟨tokens', last', htokens', hlexemes⟩ := tokenize_of_laid other (laid_of_tokenize h)
  rw [String.ofList_toList] at htokens'
  exact ⟨tokens', last', htokens', hlexemes⟩

/-- **In another file a source has the same declarations**, up to locations. -/
theorem parse_filed {decls : List Decl} (h : parse file source = .ok decls) (other : String) :
    ∃ decls', parse other source = .ok decls' ∧
      decls'.map (·.relocate fun _ => default) = decls.map (·.relocate fun _ => default) := by
  obtain ⟨tokens, last, -, htokens, -⟩ := file_of_parse h
  obtain ⟨tokens', last', htokens', hlexemes⟩ := tokenize_filed htokens other
  have hfirst := parse_of_spaced htokens
  have hsecond := parse_of_spaced htokens'
  rw [hlexemes] at hsecond
  rcases hfirst with ⟨read, hread, hanswer⟩ | ⟨fault, -, hread, -⟩
  · cases h.symm.trans hread
    rcases hsecond with ⟨decls', hdecls', hanswer'⟩ | ⟨fault, fault', -, hanswer', -⟩
    · exact ⟨decls', hdecls', Except.ok.inj (hanswer'.symm.trans hanswer)⟩
    · cases hanswer'.symm.trans hanswer
  · cases h.symm.trans hread

end FrontEnd
