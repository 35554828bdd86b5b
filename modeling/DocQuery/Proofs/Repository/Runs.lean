import DocQuery.Repository.Script
import Mathlib.Data.List.Basic

/-!
# What a repository sends

Requests go to the store one after another. What is sent is the list of the
terms that compile, in the order of their requests and each once; what a request
is answered depends on its own term and the outcome of that term alone.
-/

namespace DocQuery

namespace Request

/-- The term that a request sends, if it compiles. -/
def term? (c : Compiler) (request : Request) : Option Term := (request.term c).toOption

/-- What a request is answered where its term would get an outcome. -/
def result (c : Compiler) (request : Request) (o : Outcome) : Except Failure Answer :=
  match request.term c with
  | .error e => .error (.rejected e)
  | .ok _ => request.answer o

variable {c : Compiler} {request : Request}

theorem term?_of_error {e : Rejection} (h : request.term c = .error e) :
    request.term? c = none := by
  rw [term?, h]
  rfl

theorem term?_of_ok {t : Term} (h : request.term c = .ok t) : request.term? c = some t := by
  rw [term?, h]
  rfl

theorem result_of_error {e : Rejection} (h : request.term c = .error e) (o : Outcome) :
    request.result c o = .error (.rejected e) := by
  rw [result, h]

theorem result_of_ok {t : Term} (h : request.term c = .ok t) (o : Outcome) :
    request.result c o = request.answer o := by
  rw [result, h]

/-- The terms of requests, without those that do not compile. -/
def terms (c : Compiler) (requests : List Request) : List Term := requests.filterMap (term? c)

theorem terms_cons (requests : List Request) :
    terms c (request :: requests) = (request.term? c).toList ++ terms c requests := by
  rw [terms, terms, List.filterMap_cons]
  cases request.term? c <;> rfl

/-- The answers to requests when their terms get outcomes in order. A request
whose term is not sent takes none of them. -/
def dealt (c : Compiler) : List Request → List Outcome → List (Except Failure Answer)
  | [], _ => []
  | request :: rest, os =>
    request.result c (os.headD (.error .timeout)) ::
      dealt c rest (os.drop (request.term? c).toList.length)

/-- An answer depends on nothing that was answered before. -/
theorem getElem?_dealt (requests : List Request) (os : List Outcome) (i : Nat) :
    (dealt c requests os)[i]? = requests[i]?.map fun request =>
      request.result c (os[(terms c (requests.take i)).length]?.getD (.error .timeout)) := by
  induction requests generalizing os i with
  | nil => rfl
  | cons request rest ih =>
      cases i with
      | zero => simp [dealt, terms, List.headD_eq_head?_getD, List.head?_eq_getElem?]
      | succ i =>
          rw [dealt, List.getElem?_cons_succ, List.getElem?_cons_succ, ih, List.take_succ_cons,
            terms_cons, List.length_append]
          simp only [List.getElem?_drop]

end Request

/-! ## Any connector -/

namespace Repository

open Request

variable {m : Type → Type} [Monad m] [LawfulMonad m] {r : Repository m}

/-- A request sends its term and nothing else. -/
theorem perform_eq (request : Request) :
    r.perform request =
      (fun os => request.result r.compiler (os.headD (.error .timeout))) <$>
        (request.term? r.compiler).toList.mapM r.send := by
  unfold perform
  rcases h : request.term r.compiler with e | t
  · simp [term?_of_error h, result_of_error h]
  · simp [term?_of_ok h, result_of_ok h]

/-- Requests send the terms that compile, one after another, whatever the
connector does with them. -/
theorem mapM_perform (requests : List Request) :
    requests.mapM r.perform =
      dealt r.compiler requests <$> (terms r.compiler requests).mapM r.send := by
  induction requests with
  | nil => simp [terms, dealt]
  | cons request rest ih =>
      rw [List.mapM_cons, perform_eq, ih, terms_cons]
      rcases h : request.term r.compiler with e | t
      · simp [dealt, term?_of_error h, result_of_error h]
      · simp [dealt, term?_of_ok h]

end Repository

/-! ## Scripted connectors -/

namespace Script

/-- A script after it has received terms. -/
def sent (s : Script) (ts : List Term) : Script :=
  ⟨s.outcomes.drop ts.length, s.received ++ ts⟩

theorem sent_nil (s : Script) : s.sent [] = s := by
  simp [sent]

theorem sent_append (s : Script) (ts us : List Term) :
    s.sent (ts ++ us) = (s.sent ts).sent us := by
  simp [sent]

/-- What is played back for this many terms. -/
def playback : List Outcome → Nat → List Outcome
  | _, 0 => []
  | os, n + 1 => os.headD (.error .timeout) :: playback os.tail n

theorem run_send (t : Term) (s : Script) :
    (send t).run s = (s.outcomes.headD (.error .timeout), s.sent [t]) := by
  obtain ⟨outcomes, received⟩ := s
  cases outcomes <;> rfl

theorem run_mapM_send (ts : List Term) (s : Script) :
    (ts.mapM send).run s = (playback s.outcomes ts.length, s.sent ts) := by
  induction ts generalizing s with
  | nil =>
      rw [sent_nil]
      rfl
  | cons t ts ih =>
      have htail : (s.sent [t]).outcomes = s.outcomes.tail := List.drop_one
      rw [List.mapM_cons, StateT.run_bind, run_send]
      show StateT.run (_ >>= _) _ = _
      rw [StateT.run_bind, ih, htail, ← sent_append]
      rfl

end Script

/-- Requests look at no more outcomes than there are terms, and where a script has run
out they find the one that it plays back then. -/
theorem Request.dealt_playback {c : Compiler} (requests : List Request) (os : List Outcome) :
    dealt c requests (Script.playback os (terms c requests).length) = dealt c requests os := by
  induction requests generalizing os with
  | nil => rfl
  | cons request rest ih =>
      rw [dealt, dealt, terms_cons, List.length_append]
      rcases h : request.term c with e | t
      · -- the outcome that the request finds makes no difference to it
        simp [term?_of_error h, result_of_error h, ih]
      · simp [term?_of_ok h, Nat.add_comm 1, Script.playback, ih]

namespace Compiler

open Request

variable {c : Compiler}

/-- One request: at most one term is received and at most one outcome is taken. -/
theorem run_perform (request : Request) (s : Script) :
    (c.scripted.perform request).run s =
      (request.result c (s.outcomes.headD (.error .timeout)),
        s.sent (request.term? c).toList) := by
  have hperform : c.scripted.perform request =
      (fun os => request.result c (os.headD (.error .timeout))) <$>
        (request.term? c).toList.mapM Script.send := Repository.perform_eq request
  rw [hperform, StateT.run_map, Script.run_mapM_send]
  refine Prod.ext ?_ rfl
  rcases h : request.term c with e | t
  · exact (result_of_error h _).trans (result_of_error h _).symm
  · rw [term?_of_ok h]
    rfl

theorem run_mapM_perform (requests : List Request) (s : Script) :
    (requests.mapM c.scripted.perform).run s =
      (dealt c requests s.outcomes, s.sent (terms c requests)) := by
  have hperform : requests.mapM c.scripted.perform =
      dealt c requests <$> (terms c requests).mapM Script.send := Repository.mapM_perform requests
  rw [hperform, StateT.run_map, Script.run_mapM_send]
  exact Prod.ext (dealt_playback requests s.outcomes) rfl

end Compiler

/-- What a connector receives is exactly the terms of the requests that compile,
in their order and each once; each takes one outcome, and the answer to a request
is made of its own term and outcome alone. A request that does not compile is
answered with its rejection, sends nothing and takes nothing. A failure of the
connector is passed on, and its term is not sent again. -/
theorem requests_send_terms (c : Compiler) :
    (∀ (s : Script) (requests : List Request), ∃ answers,
      (requests.mapM c.scripted.perform).run s =
        (answers, ⟨s.outcomes.drop (Request.terms c requests).length,
          s.received ++ Request.terms c requests⟩) ∧
      ∀ i : Nat, answers[i]? = requests[i]?.map fun request =>
        request.result c
          (s.outcomes[(Request.terms c (requests.take i)).length]?.getD (.error .timeout))) ∧
    (∀ request e, request.term c = .error e → ∀ s : Script,
      (c.scripted.perform request).run s = (.error (.rejected e), s)) ∧
    ∀ request t, request.term c = .ok t → ∀ f outcomes received,
      (c.scripted.perform request).run ⟨.error f :: outcomes, received⟩ =
        (.error (.connector f), ⟨outcomes, received ++ [t]⟩) := by
  refine ⟨fun s requests => ⟨Request.dealt c requests s.outcomes, ?_, ?_⟩, ?_, ?_⟩
  · exact Compiler.run_mapM_perform requests s
  · exact Request.getElem?_dealt requests s.outcomes
  · intro request e h s
    rw [Compiler.run_perform, Request.result_of_error h, Request.term?_of_error h]
    simp [Script.sent]
  · intro request t h f outcomes received
    rw [Compiler.run_perform, Request.result_of_ok h, Request.term?_of_ok h]
    rfl

/-- Of three requests the second lacks its parameter. The insert is answered by
the first outcome and the delete by the second, which is a failure. -/
theorem requests_send_terms_of_posts :
    let c : Compiler := {}
    let posts : Source := ⟨"posts", none⟩
    let insert : Request := .write (.insert "posts" [])
    let page : Request := .all { source := posts, limit := some (.param 0) } []
    let delete : Request := .write (.delete "posts" (.number (.int 7)))
    let inserted : WriteSummary := { inserted := 1 }
    let failure : ConnectorFailure := .connection "reset"
    let s : Script := ⟨[.ok (.summary inserted), .error failure], []⟩
    ∃ t u : Term, insert.term c = .ok t ∧ delete.term c = .ok u ∧
      page.term c = .error (.parameterMissing 0 0) ∧
      ([insert, page, delete].mapM c.scripted.perform).run s =
        ([.ok (.summary inserted), .error (.rejected (.parameterMissing 0 0)),
          .error (.connector failure)], ⟨[], [t, u]⟩) ∧
      (c.scripted.perform page).run s = (.error (.rejected (.parameterMissing 0 0)), s) ∧
      (c.scripted.perform delete).run ⟨[.error failure], [t]⟩ =
        (.error (.connector failure), ⟨[], [t, u]⟩) := by
  intro c posts insert page delete inserted failure s
  obtain ⟨hrun, hrejected, hfailed⟩ := requests_send_terms c
  obtain ⟨answers, hanswers, hget⟩ := hrun s [insert, page, delete]
  have heach : answers = [.ok (.summary inserted), .error (.rejected (.parameterMissing 0 0)),
      .error (.connector failure)] := by
    refine List.ext_getElem? fun i => ?_
    rw [hget i]
    match i with
    | 0 | 1 | 2 | _ + 3 => rfl
  refine ⟨_, _, rfl, rfl, rfl, ?_, hrejected page _ rfl s, hfailed delete _ rfl failure [] _⟩
  rw [hanswers, heach]
  rfl

end DocQuery
