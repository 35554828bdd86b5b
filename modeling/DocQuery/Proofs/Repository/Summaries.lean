import DocQuery.Proofs.Repository.Runs

/-!
# What a write is answered

The store answers a write by a summary, an object of counters and keys. `Reads` says
key by key which summary the fields of an object give; which objects are taken for
summaries at all is a question of four of the keys. The main results are what a write
is answered for every reply, and which well-typed objects are overlooked.
-/

namespace DocQuery

namespace WriteSummary

/-- The counter under a key: a natural number, or zero where there is no such key. An
integer that was read from a reply is a 64-bit word, so it always fits a counter. -/
def Counts (fields : Entries Json) (key : String) (n : Nat) : Prop :=
  Entries.get? key fields = some (.int n) ∨ Entries.get? key fields = none ∧ n = 0

/-- Every part of the summary is the value of its key, and nothing where there is no
such key. The first error may also be given as `null`. -/
structure Reads (s : WriteSummary) (fields : Entries Json) : Prop where
  inserted : Counts fields "inserted" s.inserted
  replaced : Counts fields "replaced" s.replaced
  unchanged : Counts fields "unchanged" s.unchanged
  deleted : Counts fields "deleted" s.deleted
  skipped : Counts fields "skipped" s.skipped
  errors : Counts fields "errors" s.errors
  generatedKeys : Entries.get? "generated_keys" fields = some (.array s.generatedKeys) ∨
    Entries.get? "generated_keys" fields = none ∧ s.generatedKeys = []
  firstError : match s.firstError with
    | some text => Entries.get? "first_error" fields = some (.string text)
    | none => Entries.get? "first_error" fields = none ∨
        Entries.get? "first_error" fields = some .null

/-- The known keys that are there have values of their types. -/
structure WellTyped (fields : Entries Json) : Prop where
  counters : ∀ key ∈ ["inserted", "replaced", "unchanged", "deleted", "skipped", "errors"],
    ∀ v, Entries.get? key fields = some v → ∃ n : Nat, v = .int n
  generatedKeys : ∀ v, Entries.get? "generated_keys" fields = some v → ∃ keys, v = .array keys
  firstError : ∀ v, Entries.get? "first_error" fields = some v →
    v = .null ∨ ∃ text, v = .string text

variable {fields : Entries Json} {s : WriteSummary}

theorem counter?_eq_some_iff {key : String} {n : Nat} :
    counter? fields key = some n ↔ Counts fields key n := by
  rw [counter?, Counts]
  rcases hkey : Entries.get? key fields with _ | v
  · simp [eq_comm]
  · cases v with
    | number m =>
        cases m with
        | int i =>
            -- a negative integer is no counter
            simp only [Json.int]
            grind
        | float x => simp [Json.int]
    | _ => simp [Json.int]

theorem keys?_eq_some_iff {keys : List Json} :
    keys? fields = some keys ↔ Entries.get? "generated_keys" fields = some (.array keys) ∨
      Entries.get? "generated_keys" fields = none ∧ keys = [] := by
  rw [keys?]
  rcases hkey : Entries.get? "generated_keys" fields with _ | v
  · simp [eq_comm]
  · cases v with
    | array items => simp
    | _ => simp

theorem firstError?_eq_some_iff {first : Option String} :
    firstError? fields = some first ↔ match first with
      | some text => Entries.get? "first_error" fields = some (.string text)
      | none => Entries.get? "first_error" fields = none ∨
          Entries.get? "first_error" fields = some .null := by
  rw [firstError?]
  rcases hkey : Entries.get? "first_error" fields with _ | v
  · cases first <;> simp
  · cases v <;> cases first <;> simp

/-- Reading yields the one summary that the fields give. -/
theorem ofFields?_eq_some_iff : ofFields? fields = some s ↔ s.Reads fields := by
  simp only [ofFields?, bind, Option.bind_eq_some_iff, counter?_eq_some_iff, keys?_eq_some_iff,
    firstError?_eq_some_iff]
  constructor
  · rintro ⟨inserted, hinserted, replaced, hreplaced, unchanged, hunchanged, deleted, hdeleted,
      skipped, hskipped, errors, herrors, keys, hkeys, first, hfirst, hs⟩
    obtain rfl := Option.some.inj hs
    exact ⟨hinserted, hreplaced, hunchanged, hdeleted, hskipped, herrors, hkeys, hfirst⟩
  · rintro ⟨hinserted, hreplaced, hunchanged, hdeleted, hskipped, herrors, hkeys, hfirst⟩
    exact ⟨_, hinserted, _, hreplaced, _, hunchanged, _, hdeleted, _, hskipped, _, herrors,
      _, hkeys, _, hfirst, rfl⟩

/-- The fields give one summary at most. -/
theorem Reads.unique {s' : WriteSummary} (h : s.Reads fields) (h' : s'.Reads fields) : s = s' := by
  rw [← ofFields?_eq_some_iff] at h h'
  exact Option.some.inj (h.symm.trans h')

/-- A key gives a counter if it is not there or a natural number. -/
theorem exists_counts_iff {key : String} : (∃ n, Counts fields key n) ↔
    ∀ v, Entries.get? key fields = some v → ∃ n : Nat, v = .int n := by
  simp only [Counts]
  cases Entries.get? key fields with
  | none => simp
  | some v => simp

theorem exists_keys_iff : (∃ keys : List Json,
      Entries.get? "generated_keys" fields = some (.array keys) ∨
        Entries.get? "generated_keys" fields = none ∧ keys = []) ↔
    ∀ v, Entries.get? "generated_keys" fields = some v → ∃ keys, v = .array keys := by
  cases Entries.get? "generated_keys" fields with
  | none => simp
  | some v => simp

theorem exists_firstError_iff : (∃ first : Option String, match first with
      | some text => Entries.get? "first_error" fields = some (.string text)
      | none => Entries.get? "first_error" fields = none ∨
          Entries.get? "first_error" fields = some .null) ↔
    ∀ v, Entries.get? "first_error" fields = some v → v = .null ∨ ∃ text, v = .string text := by
  rw [Option.exists]
  cases Entries.get? "first_error" fields with
  | none => simp
  | some v => simp

/-- Well-typed fields give a summary, and no other fields do. -/
theorem WellTyped.exists_reads (h : WellTyped fields) : ∃ s : WriteSummary, s.Reads fields := by
  have hcounters := h.counters
  simp only [List.forall_mem_cons, ← exists_counts_iff] at hcounters
  obtain ⟨⟨inserted, hinserted⟩, ⟨replaced, hreplaced⟩, ⟨unchanged, hunchanged⟩,
    ⟨deleted, hdeleted⟩, ⟨skipped, hskipped⟩, ⟨errors, herrors⟩, -⟩ := hcounters
  obtain ⟨keys, hkeys⟩ := exists_keys_iff.mpr h.generatedKeys
  obtain ⟨first, hfirst⟩ := exists_firstError_iff.mpr h.firstError
  exact ⟨⟨inserted, replaced, unchanged, deleted, skipped, errors, keys, first⟩, hinserted,
    hreplaced, hunchanged, hdeleted, hskipped, herrors, hkeys, hfirst⟩

theorem Reads.wellTyped (h : s.Reads fields) : WellTyped fields where
  counters := by
    simp only [List.forall_mem_cons, ← exists_counts_iff]
    exact ⟨⟨_, h.inserted⟩, ⟨_, h.replaced⟩, ⟨_, h.unchanged⟩, ⟨_, h.deleted⟩, ⟨_, h.skipped⟩,
      ⟨_, h.errors⟩, nofun⟩
  generatedKeys := exists_keys_iff.mp ⟨_, h.generatedKeys⟩
  firstError := exists_firstError_iff.mp ⟨_, h.firstError⟩

theorem isMarked_iff : isMarked fields = true ↔
    ∃ key ∈ ["inserted", "replaced", "deleted", "generated_keys"],
      (Entries.get? key fields).isSome := by
  rw [isMarked, markers, List.any_eq_true]

end WriteSummary

/-- The reply is taken for a summary, and for this one: it is an object without an
error text, with one of the four keys by which summaries are known, and gives it. -/
def Json.Summarizes (v : Json) (s : WriteSummary) : Prop :=
  ∃ fields, v = .object fields ∧ (∀ text, Entries.get? "error" fields ≠ some (.string text)) ∧
    (∃ key ∈ ["inserted", "replaced", "deleted", "generated_keys"],
      (Entries.get? key fields).isSome) ∧ s.Reads fields

namespace Reply

variable {fields : Entries Json} {v : Json}

theorem ofJson_object (h : ∀ text, Entries.get? "error" fields ≠ some (.string text)) :
    ofJson (.object fields) = ofPlainFields fields := by
  rw [ofJson]
  split
  · rename_i text htext
    exact absurd htext (h text)
  · rfl

theorem ofPlainFields_ne_error (fields : Entries Json) (text : String) :
    ofPlainFields fields ≠ .error text := by
  rw [ofPlainFields]
  split_ifs
  · cases WriteSummary.ofFields? fields with
    | none => nofun
    | some s => nofun
  · nofun

theorem ofPlainFields_eq_summary_iff {s : WriteSummary} :
    ofPlainFields fields = .summary s ↔
      (∃ key ∈ ["inserted", "replaced", "deleted", "generated_keys"],
        (Entries.get? key fields).isSome) ∧ s.Reads fields := by
  rw [← WriteSummary.isMarked_iff, ← WriteSummary.ofFields?_eq_some_iff, ofPlainFields]
  split_ifs with hmarked
  · cases WriteSummary.ofFields? fields with
    | none => simp [hmarked]
    | some s' => simp [hmarked]
  · simp [hmarked]

/-- An error document is an object with a text under `error`, whatever else it has. -/
theorem ofJson_eq_error_iff {text : String} :
    ofJson v = .error text ↔ v.field? "error" = some (.string text) := by
  cases v with
  | object fields =>
      rw [Json.field?]
      by_cases htext : ∃ text, Entries.get? "error" fields = some (.string text)
      · obtain ⟨text', htext⟩ := htext
        simp [ofJson, htext]
      · rw [ofJson_object fun text h => htext ⟨text, h⟩]
        exact iff_of_false (ofPlainFields_ne_error fields text) fun h => htext ⟨text, h⟩
  | _ => simp [ofJson, Json.field?]

theorem ofJson_eq_summary_iff {s : WriteSummary} : ofJson v = .summary s ↔ v.Summarizes s := by
  cases v with
  | object fields =>
      simp only [Json.Summarizes, Json.object.injEq, exists_eq_left']
      by_cases htext : ∃ text, Entries.get? "error" fields = some (.string text)
      · obtain ⟨text, htext⟩ := htext
        refine iff_of_false ?_ fun h => h.1 text htext
        simp [ofJson, htext]
      · have hplain : ∀ text, Entries.get? "error" fields ≠ some (.string text) :=
          fun text h => htext ⟨text, h⟩
        rw [ofJson_object hplain, ofPlainFields_eq_summary_iff, and_iff_right hplain]
  | _ => simp [ofJson, Json.Summarizes]

end Reply

namespace Request

variable {w : Write} {r : Reply}

/-- A write succeeds with a summary of no errors only. -/
theorem answer_write_eq_ok_iff {a : Answer} :
    (write w).answer (.ok r) = .ok a ↔ ∃ s, r = .summary s ∧ s.errors = 0 ∧ a = .summary s := by
  cases r with
  | summary s =>
      show answerSummary s = .ok a ↔ _
      rw [answerSummary]
      split_ifs with herrors
      · simp [Nat.ne_of_gt herrors]
      · simp [Nat.eq_zero_of_not_pos herrors, eq_comm]
  | documents docs => simp [answer, answerReply]
  | scalar v => simp [answer, answerReply]
  | error text => simp [answer]

theorem answer_write_eq_error_iff {f : Failure} :
    (write w).answer (.ok r) = .error f ↔
      (∃ text, r = .error text ∧ f = .store text) ∨
      (∃ s, r = .summary s ∧ 0 < s.errors ∧
        f = .store (s.firstError.getD (toString s.errors ++ " write errors"))) ∨
      (∀ text, r ≠ .error text) ∧ (∀ s, r ≠ .summary s) ∧ f = .unexpected .summary r := by
  cases r with
  | summary s =>
      show answerSummary s = .error f ↔ _
      rw [answerSummary]
      split_ifs with herrors
      · simp [herrors, eq_comm]
      · simp [herrors]
  | documents docs => simp [answer, answerReply, eq_comm]
  | scalar v => simp [answer, answerReply, eq_comm]
  | error text => simp [answer, eq_comm]

end Request

/-- A request that compiles is answered by the next outcome. -/
theorem Compiler.run_perform_of_ok {c : Compiler} {request : Request} {t : Term}
    (h : request.term c = .ok t) (o : Outcome) (outcomes : List Outcome) (received : List Term) :
    (c.scripted.perform request).run ⟨o :: outcomes, received⟩ =
      (request.answer o, ⟨outcomes, received ++ [t]⟩) := by
  rw [run_perform, Request.result_of_ok h, Request.term?_of_ok h]
  rfl

/-- A write that compiles succeeds exactly if the reply is a summary without errors,
and then with what the summary says. An error document is its text and a summary with
errors its first error or their number; every other reply is unexpected. -/
theorem write_succeeds_iff (c : Compiler) (w : Write) (t : Term)
    (ht : c.compileWrite w = .ok t) (v : Json) (outcomes : List Outcome) (received : List Term) :
    ∃ result, (c.scripted.perform (.write w)).run ⟨.ok (.ofJson v) :: outcomes, received⟩ =
        (result, ⟨outcomes, received ++ [t]⟩) ∧
      (∀ a, result = .ok a ↔ ∃ s, v.Summarizes s ∧ s.errors = 0 ∧ a = .summary s) ∧
      ∀ f, result = .error f ↔
        (∃ text, v.field? "error" = some (.string text) ∧ f = .store text) ∨
        (∃ s, v.Summarizes s ∧ 0 < s.errors ∧
          f = .store (s.firstError.getD (toString s.errors ++ " write errors"))) ∨
        (∀ text, v.field? "error" ≠ some (.string text)) ∧ (∀ s, ¬ v.Summarizes s) ∧
          f = .unexpected .summary (.ofJson v) := by
  have hterm : (Request.write w).term c = .ok t := ht
  refine ⟨_, Compiler.run_perform_of_ok hterm _ outcomes received, fun a => ?_, fun f => ?_⟩
  · simp only [Request.answer_write_eq_ok_iff, Reply.ofJson_eq_summary_iff]
  · simp only [Request.answer_write_eq_error_iff, ne_eq, Reply.ofJson_eq_error_iff,
      Reply.ofJson_eq_summary_iff]

/-- A delete that nothing stood against and one with two errors that the store does
not name. The key `note` is no part of a summary. -/
theorem write_succeeds_iff_of_posts :
    let c : Compiler := {}
    let delete : Write := .delete "posts" (.int 7)
    let clean : Json := .object [("note", .null), ("deleted", .int 1)]
    let failed : Json := .object [("deleted", .int 0), ("errors", .int 2)]
    ∃ t, c.compileWrite delete = .ok t ∧
      (c.scripted.perform (.write delete)).run ⟨[.ok (.ofJson clean)], []⟩ =
        (.ok (.summary { deleted := 1 }), ⟨[], [t]⟩) ∧
      (c.scripted.perform (.write delete)).run ⟨[.ok (.ofJson failed)], []⟩ =
        (.error (.store "2 write errors"), ⟨[], [t]⟩) := by
  intro c delete clean failed
  obtain ⟨t, ht⟩ : ∃ t, c.compileWrite delete = .ok t := ⟨_, rfl⟩
  have hclean : clean.Summarizes { deleted := 1 } :=
    Reply.ofJson_eq_summary_iff.mp rfl
  have hfailed : failed.Summarizes { errors := 2 } :=
    Reply.ofJson_eq_summary_iff.mp rfl
  refine ⟨t, ht, ?_, ?_⟩
  · obtain ⟨result, hrun, hok, -⟩ := write_succeeds_iff c delete t ht clean [] []
    have hresult : result = .ok (.summary { deleted := 1 }) :=
      (hok _).mpr ⟨_, hclean, rfl, rfl⟩
    rw [hrun, hresult]
    rfl
  · obtain ⟨result, hrun, -, herror⟩ := write_succeeds_iff c delete t ht failed [] []
    have hresult : result = .error (.store "2 write errors") :=
      (herror _).mpr (Or.inr (Or.inl ⟨_, hfailed, by decide, rfl⟩))
    rw [hrun, hresult]
    rfl

/-- A well-typed object without an error text is taken for the summary that it gives
if it has one of four keys, and then a write is told of its errors. An object that has
none of them is a scalar, whatever it counts, and a write has no use for it. -/
theorem summary_recognized_by_markers (c : Compiler) (w : Write) (t : Term)
    (ht : c.compileWrite w = .ok t) (fields : Entries Json)
    (herror : ∀ text, Entries.get? "error" fields ≠ some (.string text))
    (htyped : WriteSummary.WellTyped fields) :
    ∃ s : WriteSummary, s.Reads fields ∧
      ((∃ key ∈ ["inserted", "replaced", "deleted", "generated_keys"],
          (Entries.get? key fields).isSome) →
        Reply.ofJson (.object fields) = .summary s ∧
        (0 < s.errors → ∀ outcomes received,
          (c.scripted.perform (.write w)).run
              ⟨.ok (.ofJson (.object fields)) :: outcomes, received⟩ =
            (.error (.store (s.firstError.getD (toString s.errors ++ " write errors"))),
              ⟨outcomes, received ++ [t]⟩))) ∧
      ((∀ key ∈ ["inserted", "replaced", "deleted", "generated_keys"],
          Entries.get? key fields = none) →
        Reply.ofJson (.object fields) = .scalar (.object fields) ∧
        ∀ outcomes received,
          (c.scripted.perform (.write w)).run
              ⟨.ok (.ofJson (.object fields)) :: outcomes, received⟩ =
            (.error (.unexpected .summary (.scalar (.object fields))),
              ⟨outcomes, received ++ [t]⟩)) := by
  have hterm : (Request.write w).term c = .ok t := ht
  obtain ⟨s, hs⟩ := htyped.exists_reads
  refine ⟨s, hs, fun hmarked => ?_, fun hbare => ?_⟩
  · have hsummary : Reply.ofJson (.object fields) = .summary s :=
      Reply.ofJson_eq_summary_iff.mpr ⟨fields, rfl, herror, hmarked, hs⟩
    refine ⟨hsummary, fun herrors outcomes received => ?_⟩
    rw [Compiler.run_perform_of_ok hterm, hsummary]
    have hanswer := Request.answer_write_eq_error_iff (w := w).mpr
      (Or.inr (Or.inl ⟨s, rfl, herrors, rfl⟩))
    rw [hanswer]
  · have hunmarked : ¬ WriteSummary.isMarked fields = true := by
      rw [WriteSummary.isMarked_iff]
      rintro ⟨key, hkey, hsome⟩
      rw [hbare key hkey] at hsome
      cases hsome
    have hscalar : Reply.ofJson (.object fields) = .scalar (.object fields) := by
      rw [Reply.ofJson_object herror, Reply.ofPlainFields, if_neg hunmarked]
    refine ⟨hscalar, fun outcomes received => ?_⟩
    rw [Compiler.run_perform_of_ok hterm, hscalar]
    rfl

/-- The same two errors are told where the summary has the key `deleted`, and a
summary that has only them is not known as one. -/
theorem summary_recognized_by_markers_of_posts :
    let c : Compiler := {}
    let delete : Write := .delete "posts" (.int 7)
    let marked : Entries Json := [("errors", .int 2), ("deleted", .int 0)]
    let bare : Entries Json := [("errors", .int 2)]
    ∃ t, c.compileWrite delete = .ok t ∧
      Reply.ofJson (.object marked) = .summary { errors := 2 } ∧
      (c.scripted.perform (.write delete)).run ⟨[.ok (.ofJson (.object marked))], []⟩ =
        (.error (.store "2 write errors"), ⟨[], [t]⟩) ∧
      Reply.ofJson (.object bare) = .scalar (.object bare) := by
  intro c delete marked bare
  obtain ⟨t, ht⟩ : ∃ t, c.compileWrite delete = .ok t := ⟨_, rfl⟩
  have hmarked : WriteSummary.Reads { errors := 2 } marked :=
    WriteSummary.ofFields?_eq_some_iff.mp rfl
  have hbare : WriteSummary.Reads { errors := 2 } bare :=
    WriteSummary.ofFields?_eq_some_iff.mp rfl
  obtain ⟨s, hs, hknown, -⟩ :=
    summary_recognized_by_markers c delete t ht marked nofun hmarked.wellTyped
  obtain ⟨s', hs', -, hunknown⟩ :=
    summary_recognized_by_markers c delete t ht bare nofun hbare.wellTyped
  obtain rfl : s = { errors := 2 } := hs.unique hmarked
  obtain ⟨hsummary, htold⟩ := hknown ⟨"deleted", by decide, by decide⟩
  refine ⟨t, ht, hsummary, ?_, (hunknown (by decide)).1⟩
  rw [htold (by decide)]
  rfl

/-- An error that the store tells of is lost: the reply is a well-typed summary that
counts one error and gives its text, but it is taken for a scalar. -/
theorem not_summary_of_errors_alone :
    let c : Compiler := {}
    let delete : Write := .delete "posts" (.int 7)
    let fields : Entries Json := [("errors", .int 1), ("first_error", .string "disk full")]
    let s : WriteSummary := { errors := 1, firstError := some "disk full" }
    (∀ text, Entries.get? "error" fields ≠ some (.string text)) ∧
      WriteSummary.WellTyped fields ∧ (Entries.get? "errors" fields).isSome ∧
      s.Reads fields ∧ Reply.ofJson (.object fields) ≠ .summary s ∧
      ∃ t, c.compileWrite delete = .ok t ∧
        (c.scripted.perform (.write delete)).run ⟨[.ok (.ofJson (.object fields))], []⟩ =
          (.error (.unexpected .summary (.scalar (.object fields))), ⟨[], [t]⟩) := by
  intro c delete fields s
  have hs : s.Reads fields := WriteSummary.ofFields?_eq_some_iff.mp rfl
  have hscalar : Reply.ofJson (.object fields) = .scalar (.object fields) := rfl
  refine ⟨nofun, hs.wellTyped, by decide, hs, ?_, ?_⟩
  · rw [hscalar]
    nofun
  · obtain ⟨t, ht⟩ : ∃ t, (Request.write delete).term c = .ok t := ⟨_, rfl⟩
    refine ⟨t, ht, ?_⟩
    rw [hscalar, Compiler.run_perform_of_ok ht]
    rfl

end DocQuery
