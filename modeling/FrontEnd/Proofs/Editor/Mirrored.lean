import FrontEnd.Editor.Workspace
import Mathlib.Data.List.Basic

/-!
# Open documents mirror what was told of them

Whatever an editor tells and asks, in whatever order, a workspace knows of each document what was
last said of it and was not refused: the text that was opened or changed, with what reading it leads
to, or nothing once the document was closed.

* `noticeOf_eq_ok` — what the notice of a diagnostic tells.
* `Request.news?` — what a request says of a document, and `lastNews?` what was said last.
* `Workspace.respond_cases` — all that one request can do.
* `Workspace.Knows.respond` — one request keeps a workspace in step with what was said.
* `Workspace.after_mirrors` — so does any number of them.
-/

set_option autoImplicit false

namespace FrontEnd.Editor

/-! ## What is said of documents -/

/-- Whether a request was refused. -/
def Response.isRefusal : Response → Bool
  | .tooManyDigits _ => true
  | .misplaced _ => true
  | _ => false

/-- The document that a request is about. -/
def Request.uri : Request → String
  | .opened uri _ => uri
  | .changed uri _ => uri
  | .closed uri => uri
  | .hover uri _ _ => uri
  | .completion uri => uri
  | .symbols uri => uri

/-- What a request says of its document: its text, or that it is closed. A question says nothing. -/
def Request.news? : Request → Option (Option String)
  | .opened _ text => some (some text)
  | .changed _ texts => some (some (texts.getLast?.getD ""))
  | .closed _ => some none
  | _ => none

/-- What a request that was not refused says of a given document. -/
def news? (uri : String) (event : Request × Response) : Option (Option String) :=
  if event.1.uri = uri ∧ event.2.isRefusal = false then event.1.news? else none

/-- What was last said of a document by a request that was not refused. -/
def lastNews? (uri : String) (events : List (Request × Response)) : Option (Option String) :=
  events.reverse.findSome? (news? uri)

/-- The text of a document after some requests, if it is open. -/
def openText? (uri : String) (events : List (Request × Response)) : Option String :=
  (lastNews? uri events).join

theorem openText?_concat (uri : String) (events : List (Request × Response))
    (event : Request × Response) :
    openText? uri (events ++ [event]) = (news? uri event).getD (openText? uri events) := by
  unfold openText? lastNews?
  rw [List.reverse_append, List.reverse_singleton, List.singleton_append, List.findSome?_cons]
  cases news? uri event <;> rfl

/-! ## What is known of documents -/

/-- Each severity has a number of its own. -/
theorem severityNumber_injective : Function.Injective severityNumber := by
  intro first second h
  cases first <;> cases second <;> cases h <;> rfl

/-- **What the notice of a diagnostic tells**: all of the diagnostic but its file, and that it is
one character long. -/
theorem noticeOf_eq_ok {diagnostic : Diagnostic} {notice : Notice}
    (h : noticeOf diagnostic = .ok notice) :
    notice.code = diagnostic.code ∧ notice.message = diagnostic.message ∧
      notice.severity = severityNumber diagnostic.severity ∧ notice.source = "ember" ∧
      notice.range.start = ⟨diagnostic.location.line - 1, diagnostic.location.col⟩ ∧
      notice.range.stop = ⟨diagnostic.location.line - 1, diagnostic.location.col + 1⟩ := by
  unfold noticeOf checkedRangeAt at h
  cases hfault : (rangeAt diagnostic.location 1).fault? with
  | some fault =>
    rw [hfault] at h
    cases h
  | none =>
    rw [hfault] at h
    cases h
    exact ⟨rfl, rfl, rfl, rfl, rfl, rfl⟩

/-- A document is what reading its text leads to: its declarations, or none and one notice, which
tells why and where the reading stopped, with lines counted from zero. -/
structure Document.Mirrors (uri text : String) (document : Document) : Prop where
  source : document.source = text
  read : (parse uri text = .ok document.decls ∧ document.notices = []) ∨
    ∃ stopped notice, parse uri text = .error (.diagnostic stopped) ∧
      document.decls = [] ∧ document.notices = [notice] ∧ notice.code = stopped.code ∧
      notice.message = stopped.message ∧
      (∀ severity, notice.severity = severityNumber severity ↔ severity = stopped.severity) ∧
      notice.range.start = ⟨stopped.location.line - 1, stopped.location.col⟩

theorem mirrors_of_analyze {uri source : String} {document : Document}
    (h : analyze uri source = .ok document) : document.Mirrors uri source := by
  unfold analyze at h
  split at h
  · rename_i decls hparse
    cases h
    exact ⟨rfl, .inl ⟨hparse, rfl⟩⟩
  · cases h
  · rename_i stopped hparse
    split at h
    · cases h
    · rename_i notice hnotice
      cases h
      obtain ⟨hcode, hmessage, hseverity, -, hstart, -⟩ := noticeOf_eq_ok hnotice
      refine ⟨rfl, .inr ⟨stopped, notice, hparse, rfl, rfl, hcode, hmessage, fun severity => ?_,
        hstart⟩⟩
      rw [hseverity, severityNumber_injective.eq_iff, eq_comm]

/-! ## Steps -/

/-- The response to a document that cannot be taken over. -/
def Obstacle.response : Obstacle → Response
  | .tooManyDigits count => .tooManyDigits count
  | .misplaced fault => .misplaced fault

namespace Workspace

variable (workspace : Workspace)

theorem document?_close (uri other : String) :
    (workspace.close uri).document? other =
      if other = uri then none else workspace.document? other := by
  unfold close document?
  induction workspace with
  | nil => simp
  | cons entry rest ih =>
    obtain ⟨address, document⟩ := entry
    by_cases haddress : address = uri
    · subst haddress
      rw [List.filter_cons_of_neg (by simp), ih, List.lookup_cons]
      split
      · rfl
      · rename_i hother
        rw [beq_false_of_ne hother]
    · rw [List.filter_cons_of_pos (by simp [haddress]), List.lookup_cons, ih, List.lookup_cons]
      by_cases hother : other = address
      · subst hother
        simp [haddress]
      · rw [beq_false_of_ne hother]

theorem document?_insert (uri other : String) (document : Document) :
    (workspace.insert uri document).document? other =
      if other = uri then some document else workspace.document? other := by
  have hclose := document?_close workspace uri other
  show List.lookup other ((uri, document) :: workspace.close uri) = _
  rw [List.lookup_cons]
  by_cases hother : other = uri
  · simp [hother]
  · rw [beq_false_of_ne hother]
    exact hclose.trans (by rw [if_neg hother, if_neg hother])

theorem mem_addresses_iff (uri : String) :
    uri ∈ workspace.addresses ↔ (workspace.document? uri).isSome = true := by
  unfold addresses document?
  rw [List.mem_mergeSort, List.lookup_isSome_iff, List.mem_map]
  refine exists_congr fun entry => and_congr_right fun _ => ?_
  rw [beq_iff_eq, eq_comm]

/-- New text is taken over or refused, whatever else is open. -/
theorem published_update (uri text : String) :
    (∃ document, analyze uri text = .ok document ∧ ∀ workspace : Workspace,
      published uri (workspace.update uri text) =
        (.published uri document.notices, workspace.insert uri document)) ∨
    ∃ obstacle, analyze uri text = .error obstacle ∧ ∀ workspace : Workspace,
      published uri (workspace.update uri text) = (obstacle.response, workspace) := by
  unfold update
  cases analyze uri text with
  | ok document => exact .inl ⟨document, rfl, fun _ => rfl⟩
  | error obstacle => exact .inr ⟨obstacle, rfl, fun _ => by cases obstacle <;> rfl⟩

/-- **What a request can do**: a question changes nothing, a document that is closed is forgotten,
and new text is taken over with what reading it leads to, or is refused. -/
theorem respond_cases (request : Request) :
    (request.news? = none ∧ (workspace.respond request).2 = workspace) ∨
    (request.news? = some none ∧
      workspace.respond request = (.done, workspace.close request.uri)) ∨
    (∃ text document, request.news? = some (some text) ∧
      analyze request.uri text = .ok document ∧
      workspace.respond request =
        (.published request.uri document.notices, workspace.insert request.uri document)) ∨
    ∃ text obstacle, request.news? = some (some text) ∧
      analyze request.uri text = .error obstacle ∧
      workspace.respond request = (obstacle.response, workspace) := by
  cases request with
  | opened uri text =>
    rcases published_update uri text with ⟨document, hread, h⟩ | ⟨obstacle, hread, h⟩
    · exact .inr (.inr (.inl ⟨text, document, rfl, hread, h workspace⟩))
    · exact .inr (.inr (.inr ⟨text, obstacle, rfl, hread, h workspace⟩))
  | changed uri texts =>
    rcases published_update uri (texts.getLast?.getD "") with
      ⟨document, hread, h⟩ | ⟨obstacle, hread, h⟩
    · exact .inr (.inr (.inl ⟨_, document, rfl, hread, h workspace⟩))
    · exact .inr (.inr (.inr ⟨_, obstacle, rfl, hread, h workspace⟩))
  | closed uri => exact .inr (.inl ⟨rfl, rfl⟩)
  | hover uri line character => exact .inl ⟨rfl, rfl⟩
  | completion uri => exact .inl ⟨rfl, rfl⟩
  | symbols uri => exact .inl ⟨rfl, rfl⟩

theorem isRefusal_response (obstacle : Obstacle) : obstacle.response.isRefusal = true := by
  cases obstacle <;> rfl

/-- A request that is refused changes nothing. -/
theorem respond_of_isRefusal {request : Request}
    (h : (workspace.respond request).1.isRefusal = true) :
    (workspace.respond request).2 = workspace := by
  rcases workspace.respond_cases request with
    ⟨-, hsame⟩ | ⟨-, hclosed⟩ | ⟨text, document, -, -, htaken⟩ | ⟨text, obstacle, -, -, hrefused⟩
  · exact hsame
  · rw [hclosed] at h
    cases h
  · rw [htaken] at h
    cases h
  · rw [hrefused]

/-- A question changes nothing. -/
theorem respond_of_news?_eq_none {request : Request} (h : request.news? = none) :
    (workspace.respond request).2 = workspace := by
  cases request with
  | hover uri line character => rfl
  | completion uri => rfl
  | symbols uri => rfl
  | _ => cases h

/-- A request is about one document; the others stay as they were. -/
theorem document?_respond_of_ne {uri : String} {request : Request} (h : uri ≠ request.uri) :
    (workspace.respond request).2.document? uri = workspace.document? uri := by
  rcases workspace.respond_cases request with
    ⟨-, hsame⟩ | ⟨-, hclosed⟩ | ⟨text, document, -, -, htaken⟩ | ⟨text, obstacle, -, -, hrefused⟩
  · rw [hsame]
  · rw [hclosed, document?_close, if_neg h]
  · rw [htaken, document?_insert, if_neg h]
  · rw [hrefused]

/-- The response to a request, and what becomes of its document, depend on that document alone. -/
theorem respond_congr {workspace other : Workspace} {request : Request}
    (h : workspace.document? request.uri = other.document? request.uri) :
    (workspace.respond request).1 = (other.respond request).1 ∧
      (workspace.respond request).2.document? request.uri =
        (other.respond request).2.document? request.uri := by
  have htext : ∀ uri text, workspace.document? uri = other.document? uri →
      (published uri (workspace.update uri text)).1 = (published uri (other.update uri text)).1 ∧
        (published uri (workspace.update uri text)).2.document? uri =
          (published uri (other.update uri text)).2.document? uri := by
    intro uri text hsame
    rcases published_update uri text with ⟨document, -, htaken⟩ | ⟨obstacle, -, hrefused⟩
    · rw [htaken, htaken, document?_insert, document?_insert]
      simp
    · rw [hrefused, hrefused]
      exact ⟨rfl, hsame⟩
  cases request with
  | opened uri text => exact htext uri text h
  | changed uri texts => exact htext uri _ h
  | closed uri =>
    refine ⟨rfl, ?_⟩
    show (workspace.close uri).document? uri = (other.close uri).document? uri
    rw [document?_close, document?_close, if_pos rfl, if_pos rfl]
  | hover uri line character =>
    have hsame : workspace.document? uri = other.document? uri := h
    refine ⟨?_, h⟩
    show workspace.hoverResponse uri line character = other.hoverResponse uri line character
    simp only [hoverResponse, Workspace.hover?, hsame]
  | completion uri =>
    have hsame : workspace.document? uri = other.document? uri := h
    refine ⟨?_, h⟩
    show Response.completions (workspace.completions uri) = .completions (other.completions uri)
    simp only [completions, hsame]
  | symbols uri =>
    have hsame : workspace.document? uri = other.document? uri := h
    refine ⟨?_, h⟩
    show workspace.symbolsResponse uri = other.symbolsResponse uri
    simp only [symbolsResponse, Workspace.symbols, hsame]

/-! ## Documents as they were said to be -/

/-- What a workspace knows of a document that is open with a certain text, or not open. -/
def Knows (uri : String) : Option String → Prop
  | none => workspace.document? uri = none
  | some text => ∃ document, workspace.document? uri = some document ∧ document.Mirrors uri text

theorem isSome_of_knows {workspace : Workspace} {uri : String} {text : Option String}
    (h : workspace.Knows uri text) : (workspace.document? uri).isSome = text.isSome := by
  cases text with
  | none =>
    have hnone : workspace.document? uri = none := h
    rw [hnone]
    rfl
  | some text =>
    obtain ⟨document, hsome, -⟩ := h
    rw [hsome]
    rfl

/-- **A request keeps a workspace in step with what is said**, be it refused or not. -/
theorem Knows.respond {workspace : Workspace} {uri : String} {text : Option String}
    (h : workspace.Knows uri text) (request : Request) :
    (workspace.respond request).2.Knows uri
      ((news? uri (request, (workspace.respond request).1)).getD text) := by
  by_cases huri : request.uri = uri
  · subst huri
    rcases workspace.respond_cases request with
      ⟨hnews, hsame⟩ | ⟨hnews, hclosed⟩ | ⟨said, document, hnews, hread, htaken⟩ |
      ⟨said, obstacle, hnews, -, hrefused⟩
    · have hnone : news? request.uri (request, (workspace.respond request).1) = none := by
        simp [news?, hnews]
      rw [hnone, hsame]
      exact h
    · have hclose : news? request.uri (request, (workspace.respond request).1) = some none := by
        simp [news?, hnews, hclosed, Response.isRefusal]
      rw [hclose, hclosed]
      show (workspace.close request.uri).document? request.uri = none
      rw [document?_close, if_pos rfl]
    · have hsome : news? request.uri (request, (workspace.respond request).1) =
          some (some said) := by
        simp [news?, hnews, htaken, Response.isRefusal]
      rw [hsome, htaken]
      refine ⟨document, ?_, mirrors_of_analyze hread⟩
      rw [document?_insert, if_pos rfl]
    · have hnone : news? request.uri (request, (workspace.respond request).1) = none := by
        simp [news?, hrefused, isRefusal_response]
      rw [hnone, hrefused]
      exact h
  · have hnone : news? uri (request, (workspace.respond request).1) = none := by
      simp [news?, huri]
    have hother : (workspace.respond request).2.document? uri = workspace.document? uri :=
      document?_respond_of_ne workspace (Ne.symm huri)
    rw [hnone]
    unfold Knows
    rw [hother]
    exact h

/-! ## Runs -/

/-- The responses to some requests. -/
def responses (requests : List Request) : List Response :=
  (workspace.run requests).map Prod.fst

/-- The workspace after some requests. -/
def after (requests : List Request) : Workspace :=
  ((workspace.run requests).getLast?.map Prod.snd).getD workspace

/-- Some requests with their responses. -/
def events (requests : List Request) : List (Request × Response) :=
  requests.zip (workspace.responses requests)

theorem after_cons (request : Request) (requests : List Request) :
    workspace.after (request :: requests) = (workspace.respond request).2.after requests := by
  unfold after
  rw [run, List.getLast?_cons]
  cases (run (workspace.respond request).2 requests).getLast? <;> rfl

theorem events_cons (request : Request) (requests : List Request) :
    workspace.events (request :: requests) =
      (request, (workspace.respond request).1) ::
        (workspace.respond request).2.events requests :=
  rfl

/-- **A run keeps a workspace in step with what is said.** -/
theorem Knows.after {workspace : Workspace} {uri : String} {before : List (Request × Response)}
    (h : workspace.Knows uri (openText? uri before)) (requests : List Request) :
    (workspace.after requests).Knows uri
      (openText? uri (before ++ workspace.events requests)) := by
  induction requests generalizing workspace before with
  | nil =>
    have hnil : before ++ workspace.events [] = before := List.append_nil before
    rw [hnil]
    exact h
  | cons request requests ih =>
    have hstep := h.respond request
    rw [← openText?_concat] at hstep
    rw [after_cons, events_cons, List.append_cons]
    exact ih hstep

/-- Workspaces that know the same of every document. -/
def Same (other : Workspace) : Prop :=
  ∀ uri, workspace.document? uri = other.document? uri

theorem Same.respond {workspace other : Workspace} (h : workspace.Same other)
    (request : Request) :
    (workspace.respond request).1 = (other.respond request).1 ∧
      (workspace.respond request).2.Same (other.respond request).2 := by
  obtain ⟨hresponse, hdocument⟩ := respond_congr (h request.uri)
  refine ⟨hresponse, fun uri => ?_⟩
  by_cases huri : uri = request.uri
  · rw [huri]
    exact hdocument
  · rw [document?_respond_of_ne _ huri, document?_respond_of_ne _ huri]
    exact h uri

/-- Such workspaces answer alike, whatever follows. -/
theorem Same.responses {workspace other : Workspace} (h : workspace.Same other)
    (requests : List Request) : workspace.responses requests = other.responses requests := by
  induction requests generalizing workspace other with
  | nil => rfl
  | cons request requests ih =>
    obtain ⟨hresponse, hsame⟩ := h.respond request
    have hrest : (workspace.respond request).2.responses requests =
        (other.respond request).2.responses requests := ih hsame
    show (workspace.respond request).1 :: _ = (other.respond request).1 :: _
    rw [hresponse]
    exact congrArg _ hrest

/-- **Requests about different documents commute**: each is answered as without the other, and the
same is known afterwards. -/
theorem respond_comm {first second : Request} (h : first.uri ≠ second.uri) :
    ((workspace.respond first).2.respond second).1 = (workspace.respond second).1 ∧
      ((workspace.respond second).2.respond first).1 = (workspace.respond first).1 ∧
      ((workspace.respond first).2.respond second).2.Same
        ((workspace.respond second).2.respond first).2 := by
  obtain ⟨hsecond, hkeptSecond⟩ := respond_congr (document?_respond_of_ne workspace h.symm)
  obtain ⟨hfirst, hkeptFirst⟩ := respond_congr (document?_respond_of_ne workspace h)
  refine ⟨hsecond, hfirst, fun uri => ?_⟩
  by_cases huri : uri = second.uri
  · rw [huri, hkeptSecond, document?_respond_of_ne _ h.symm]
  · rw [document?_respond_of_ne _ huri]
    by_cases huri' : uri = first.uri
    · rw [huri', hkeptFirst]
    · rw [document?_respond_of_ne _ huri', document?_respond_of_ne _ huri',
        document?_respond_of_ne _ huri]

/-- **The open documents are always what was last said of them.** After any requests, a document is
open exactly if what was last said of it, and not refused, is a text, and then it is what reading
that text leads to. A request that is refused changes nothing, nor does a question. And requests
about different documents commute, also in how everything that follows is answered. -/
theorem after_mirrors (requests : List Request) :
    let workspace := after [] requests
    let said := events [] requests
    (∀ uri, (uri ∈ workspace.addresses ↔ (openText? uri said).isSome = true) ∧
      workspace.Knows uri (openText? uri said)) ∧
    (∀ request, (workspace.respond request).1.isRefusal = true →
      (workspace.respond request).2 = workspace) ∧
    (∀ request : Request, request.news? = none → (workspace.respond request).2 = workspace) ∧
    ∀ first second : Request, first.uri ≠ second.uri →
      let one := (workspace.respond first).2.respond second
      let other := (workspace.respond second).2.respond first
      one.1 = (workspace.respond second).1 ∧ other.1 = (workspace.respond first).1 ∧
        one.2.Same other.2 ∧ ∀ later, one.2.responses later = other.2.responses later := by
  intro workspace said
  have hknows : ∀ uri, workspace.Knows uri (openText? uri said) := by
    intro uri
    have hnothing : Knows [] uri (openText? uri []) := rfl
    exact hnothing.after requests
  refine ⟨fun uri => ⟨?_, hknows uri⟩, fun _ => workspace.respond_of_isRefusal,
    fun _ => workspace.respond_of_news?_eq_none, fun first second h => ?_⟩
  · rw [mem_addresses_iff, isSome_of_knows (hknows uri)]
  · intro one other
    obtain ⟨hsecond, hfirst, hsame⟩ := workspace.respond_comm h
    exact ⟨hsecond, hfirst, hsame, hsame.responses⟩

/-- Only the last of several changes counts, and closing another document is of no concern. -/
example : ((after [] [.opened "u" "x = 1", .changed "u" ["=", "x = 2"], .closed "v"]).document?
    "u").map (·.source) = some "x = 2" := by
  decide +kernel

end Workspace

end FrontEnd.Editor
