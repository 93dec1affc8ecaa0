import Tabula.Proofs.Json.Fields
import Tabula.Proofs.Path.Names
import Tabula.Proofs.Results
import Tabula.Run.Executor

/-!
# Queries one after another

A run of queries over a recorded backend changes three things: the queue of responses, the log of
requests and the saved queries. One query either fails before its search and changes none of them,
or it sends one request, takes one response, and is saved when it asks for that and succeeds
(`Executor.step_eq`). What holds of each query of a run follows from what its predecessors leave
behind (`Executor.CleanRun`, `Executor.runEach_clean`). A query that was built, and not read, has
no source: it can ask to be saved, but nothing is kept of it and it is told no name.
-/

set_option autoImplicit false

namespace Tabula

/-! ## Saved queries -/

theorem Fields.get?_append (name : String) (fields more : Fields) :
    Fields.get? name (fields ++ more) = (Fields.get? name fields).or (Fields.get? name more) := by
  induction fields with
  | nil => rfl
  | cons f fields ih =>
      obtain ⟨k, v⟩ := f
      by_cases h : k = name
      · simp [Fields.get?, h]
      · simp [Fields.get?, h, ih]

namespace Saved

theorem find?_save (id : String) (query : Json) (kept : Saved) :
    (kept.save query).find? id
      = (kept.find? id).or (if queryId query = id then some query else none) := by
  unfold save find?
  by_cases hhas : kept.queries.has (queryId query) = true
  · rw [if_pos hhas]
    -- a query of this name is there already
    by_cases hid : queryId query = id
    · obtain ⟨first, hfirst⟩ := Option.isSome_iff_exists.mp hhas
      rw [← hid, hfirst, Option.some_or]
    · rw [if_neg hid, Option.or_none]
  · rw [if_neg hhas, Fields.get?_append]
    by_cases hid : queryId query = id
    · simp [Fields.get?, hid]
    · simp [Fields.get?, hid]

def saveAll (queries : List Json) (kept : Saved) : Saved :=
  queries.foldl (fun kept query => kept.save query) kept

theorem saveAll_append (queries more : List Json) (kept : Saved) :
    kept.saveAll (queries ++ more) = (kept.saveAll queries).saveAll more :=
  List.foldl_append

/-- Under a name stands what stood there, or else the first query of this name. -/
theorem find?_saveAll (id : String) (queries : List Json) (kept : Saved) :
    (kept.saveAll queries).find? id
      = (kept.find? id).or (queries.find? fun query => queryId query == id) := by
  induction queries generalizing kept with
  | nil => rw [List.find?_nil, Option.or_none]; rfl
  | cons query queries ih =>
      have hstep : kept.saveAll (query :: queries) = (kept.save query).saveAll queries := rfl
      rw [hstep, ih, find?_save, Option.or_assoc]
      by_cases hid : queryId query = id
      · rw [if_pos hid, List.find?_cons_of_pos (by simpa using hid), Option.some_or]
      · rw [if_neg hid, List.find?_cons_of_neg (by simpa using hid), Option.none_or]

end Saved

/-! ## One search -/

namespace Recorded

/-- The response to the request that comes after some number of others; none are left in the end. -/
def reply (r : Recorded) (before : Nat) (index : String) : Reply :=
  (r.responses[before]?).getD (.error (.exhausted index))

/-- The backend after it was sent some requests: they are at the end of the log, and each has taken
a response. -/
def after (r : Recorded) (sent : List Sent) : Recorded where
  responses := r.responses.drop sent.length
  requests := r.requests ++ sent

/-- **The next response answers, and the request is in the log.** -/
theorem search_after (r : Recorded) (sent : List Sent) (index : String) (request : Json) :
    (r.after sent).search index request
      = (r.reply sent.length index, r.after (sent ++ [(index, request)])) := by
  have hdrop : r.responses.drop (sent ++ [(index, request)]).length
      = (r.responses.drop sent.length).tail := by
    rw [List.length_append, List.length_singleton, List.tail_drop]
  have hhead : r.responses[sent.length]? = (r.responses.drop sent.length).head? := by
    rw [List.head?_drop]
  unfold search reply after
  rw [hdrop, hhead, List.append_assoc]
  cases r.responses.drop sent.length with
  | nil => rfl
  | cons reply rest => rfl

end Recorded

namespace Executor

variable (e : Executor) (catalog : Catalog)

/-! ## One query -/

/-- The index of a query: the prefix and the name of its table, up to the first dot. -/
theorem index_eq (q : Query) :
    e.index q = e.indexPrefix ++ String.ofList (q.table.toList.takeWhile (· ≠ '.')) := by
  rw [index, Path.splitHead_fst_eq]

/-- A query that was read, with what it is compiled to. -/
def prepare (read : QueryResult Query) : QueryResult (Query × Compiled) := do
  let q ← read
  .ok (q, ← e.compile catalog q)

theorem prepare_of_compile {q : Query} {c : Compiled} (h : e.compile catalog q = .ok c) :
    e.prepare catalog (.ok q) = .ok (q, c) := by
  rw [prepare, Results.ok_bind, h]
  rfl

theorem prepare_of_error {q : Query} {cause : QueryError}
    (h : e.compile catalog q = .error cause) : e.prepare catalog (.ok q) = .error cause := by
  rw [prepare, Results.ok_bind, h]
  rfl

/-- The request of a query, with its index. A query that can not be compiled has none. -/
def request? (read : QueryResult Query) : Option Sent :=
  match e.prepare catalog read with
  | .ok (q, c) => some (e.index q, c.request)
  | .error _ => none

def requests (queries : List (QueryResult Query)) : List Sent :=
  queries.filterMap (e.request? catalog)

/-- What a compiled query gives on a response: a failed search is told with the request, and a
query that asks for it is told the name that its source is saved under. -/
def outcome (q : Query) (c : Compiled) : Reply → QueryResult Output
  | .error cause => .error (.backendCall cause c.request)
  | .ok response =>
      (c.decode q response).map fun result =>
        { result, request := c.request
          savedAs := if q.save then q.written.map queryId else none }

/-- What a query gives when some number of requests have been sent before. -/
def output (r : Recorded) (before : Nat) (read : QueryResult Query) : QueryResult Output :=
  match e.prepare catalog read with
  | .error cause => .error cause
  | .ok (q, c) => outcome q c (r.reply before (e.index q))

/-- A query with a result is told its name when it asks to be saved. -/
theorem savedAs_of_output {r : Recorded} {before : Nat} {q : Query} {o : Output}
    (h : e.output catalog r before (.ok q) = .ok o) :
    o.savedAs = if q.save then q.written.map queryId else none := by
  cases hc : e.compile catalog q with
  | error cause =>
      rw [output, e.prepare_of_error catalog hc] at h
      cases h
  | ok c =>
      rw [output, e.prepare_of_compile catalog hc] at h
      simp only at h
      cases hreply : r.reply before (e.index q) with
      | error cause => simp [outcome, hreply] at h
      | ok response =>
          cases hdecode : c.decode q response with
          | error cause => simp [outcome, hreply, hdecode, Except.map] at h
          | ok result =>
              simp only [outcome, hreply, hdecode, Except.map, Except.ok.injEq] at h
              rw [← h]

/-- What is saved of a query: its source, when it asks for that and has a result. -/
def source? : QueryResult Query × QueryResult Output → Option Json
  | (.ok q, .ok _) => if q.save then q.written else none
  | _ => none

theorem source?_eq_some {read : QueryResult Query} {output : QueryResult Output} {source : Json}
    (h : source? (read, output) = some source) :
    ∃ q o, read = .ok q ∧ output = .ok o ∧ q.save = true ∧ q.written = some source := by
  cases read with
  | error cause => cases h
  | ok q =>
      cases output with
      | error cause => cases h
      | ok o =>
          by_cases hsave : q.save = true
          · simp only [source?, hsave, if_true] at h
            exact ⟨q, o, rfl, rfl, hsave, h⟩
          · simp [source?, hsave] at h

/-- The sources that a run saves, in the order of its queries. -/
def sources (queries : List (QueryResult Query)) (outputs : List (QueryResult Output)) :
    List Json :=
  (queries.zip outputs).filterMap source?

/-- Runs a query; one that could not be read fails at once. -/
def step (read : QueryResult Query) (s : Session) : QueryResult Output × Session :=
  match read with
  | .error cause => (.error cause, s)
  | .ok q => e.run catalog q s

/-- A run over a recorded backend that keeps saved queries: the state after some requests were sent
and some queries saved. -/
def state (r : Recorded) (kept : Saved) (sent : List Sent) (saved : List Json) : Session where
  backend := .recorded (r.after sent)
  saved := some (kept.saveAll saved)

/-- Saving a query adds its source, if it asks for that and has one, and names it. -/
theorem save_eq (q : Query) (kept : Saved) (saved : List Json) :
    save q (some (kept.saveAll saved))
      = (if q.save then q.written.map queryId else none,
        some (kept.saveAll (saved ++ (if q.save then q.written else none).toList))) := by
  cases hwritten : q.written with
  | none => simp [save, hwritten]
  | some source =>
      cases hsave : q.save with
      | false => simp [save, hwritten, hsave]
      | true =>
          simp only [save, hwritten, hsave, if_true, Option.map_some, Option.toList_some,
            Saved.saveAll_append]
          rfl

/-- **One query of a run**: it sends its request, if it has one, gives what the next response makes
of it, and is saved if it is to be. -/
theorem step_eq (r : Recorded) (kept : Saved) (sent : List Sent) (saved : List Json)
    (read : QueryResult Query) :
    e.step catalog read (state r kept sent saved)
      = (e.output catalog r sent.length read,
        state r kept (sent ++ (e.request? catalog read).toList)
          (saved ++ (source? (read, e.output catalog r sent.length read)).toList)) := by
  cases read with
  | error cause =>
      have hprepare : e.prepare catalog (.error cause) = .error cause := rfl
      simp [step, output, request?, hprepare, source?]
  | ok q =>
      -- what can not be compiled sends nothing
      cases hc : e.compile catalog q with
      | error cause =>
          have hprepare := e.prepare_of_error catalog hc
          simp [step, run, hc, output, request?, hprepare, source?]
      | ok c =>
          have hprepare := e.prepare_of_compile catalog hc
          have hsearch : (state r kept sent saved).backend.search (e.index q) c.request
              = (r.reply sent.length (e.index q),
                .recorded (r.after (sent ++ [(e.index q, c.request)]))) := by
            simp only [state, Backend.search, Recorded.search_after]
          have hrequest : e.request? catalog (.ok q) = some (e.index q, c.request) := by
            rw [request?, hprepare]
          have houtput : e.output catalog r sent.length (.ok q)
              = outcome q c (r.reply sent.length (e.index q)) := by
            rw [output, hprepare]
          rw [houtput, hrequest, step, run, hc]
          simp only [hsearch]
          -- the request is sent in any case, but only a result is saved
          cases r.reply sent.length (e.index q) with
          | error cause => simp [outcome, source?, state]
          | ok response =>
              cases hdecode : c.decode q response with
              | error cause => simp [outcome, hdecode, Except.map, source?, state]
              | ok result =>
                  have hsaved := save_eq q kept saved
                  simp only [outcome, hdecode, Except.map, source?, state] at hsaved ⊢
                  rw [hsaved]
                  rfl

/-! ## Runs -/

theorem runEach_cons (read : QueryResult Query) (rest : List (QueryResult Query)) (s : Session) :
    e.runEach catalog (read :: rest) s
      = ((e.step catalog read s).1 :: (e.runEach catalog rest (e.step catalog read s).2).1,
        (e.runEach catalog rest (e.step catalog read s).2).2) := by
  cases read <;> rfl

theorem outputs_append (queries more : List (QueryResult Query)) (s : Session) :
    (e.runEach catalog (queries ++ more) s).1
      = (e.runEach catalog queries s).1
        ++ (e.runEach catalog more (e.runEach catalog queries s).2).1 := by
  induction queries generalizing s with
  | nil => rfl
  | cons read rest ih =>
      rw [List.cons_append, runEach_cons, runEach_cons, ih]
      rfl

/-- **A run of queries**: it sends the requests of its queries, saves the sources that are to be
saved, and gives for each query the output that follows from the number of requests before it. -/
theorem runEach_eq (r : Recorded) (kept : Saved) (sent : List Sent) (saved : List Json)
    (queries : List (QueryResult Query)) :
    ∃ outputs, e.runEach catalog queries (state r kept sent saved)
        = (outputs, state r kept (sent ++ e.requests catalog queries)
            (saved ++ sources queries outputs))
      ∧ outputs.length = queries.length
      ∧ ∀ i read, queries[i]? = some read → outputs[i]? = some
          (e.output catalog r (sent ++ e.requests catalog (queries.take i)).length read) := by
  -- on the queries still to come, after those that were sent and saved
  induction queries generalizing sent saved with
  | nil =>
      refine ⟨[], ?_, rfl, by simp⟩
      simp [runEach, requests, sources]
  | cons read rest ih =>
      obtain ⟨outputs, hrun, hlength, hall⟩ :=
        ih (sent ++ (e.request? catalog read).toList)
          (saved ++ (source? (read, e.output catalog r sent.length read)).toList)
      have hrequests (more : List (QueryResult Query)) : e.requests catalog (read :: more)
          = (e.request? catalog read).toList ++ e.requests catalog more := by
        unfold requests
        rw [List.filterMap_cons]
        cases e.request? catalog read <;> rfl
      refine ⟨e.output catalog r sent.length read :: outputs, ?_, by simp [hlength], ?_⟩
      · have hsources : sources (read :: rest) (e.output catalog r sent.length read :: outputs)
            = (source? (read, e.output catalog r sent.length read)).toList
              ++ sources rest outputs := by
          unfold sources
          rw [List.zip_cons_cons, List.filterMap_cons]
          cases source? (read, e.output catalog r sent.length read) <;> rfl
        rw [runEach_cons, step_eq, hrun, hrequests, hsources, List.append_assoc,
          List.append_assoc]
      · intro i read' hi
        cases i with
        | zero =>
            cases hi
            simp [requests]
        | succ i =>
            rw [List.getElem?_cons_succ, List.take_succ_cons, hrequests, ← List.append_assoc]
            exact hall i read' hi

section CleanRun

variable (r : Recorded) (kept : Saved) (queries : List (QueryResult Query))

def outputs : List (QueryResult Output) :=
  (e.runEach catalog queries { backend := .recorded r, saved := some kept }).1

def sessionAfter (n : Nat) : Session :=
  (e.runEach catalog (queries.take n) { backend := .recorded r, saved := some kept }).2

/-- The query that stands under a name after a run: the one that stood there before, or else the
first of this name that the run saves. -/
def firstSaved (id : String) : Option Json :=
  (kept.find? id).or
    ((sources queries (e.outputs catalog r kept queries)).find? fun source => queryId source == id)

/-- What a run of queries keeps to, over a backend that answers from a queue. -/
structure CleanRun : Prop where
  length : (e.outputs catalog r kept queries).length = queries.length
  /-- The log holds the requests of the queries so far, and each of them has taken a response. -/
  backend : ∀ n, (e.sessionAfter catalog r kept queries n).backend
    = .recorded (r.after (e.requests catalog (queries.take n)))
  /-- A query that can not be compiled changes nothing: it sends nothing and takes no response. -/
  unsent : ∀ i read cause, queries[i]? = some read → e.prepare catalog read = .error cause →
    (e.outputs catalog r kept queries)[i]? = some (.error cause)
      ∧ e.requests catalog (queries.take (i + 1)) = e.requests catalog (queries.take i)
      ∧ e.sessionAfter catalog r kept queries (i + 1) = e.sessionAfter catalog r kept queries i
  /-- Any other query sends one request, to the index of its table. -/
  sent : ∀ i read q c, queries[i]? = some read → e.prepare catalog read = .ok (q, c) →
    e.requests catalog (queries.take (i + 1))
      = e.requests catalog (queries.take i)
        ++ [(e.indexPrefix ++ String.ofList (q.table.toList.takeWhile (· ≠ '.')), c.request)]
  /-- When the next response is a failure, or none is left, the query tells so with its request. -/
  refused : ∀ i read q c cause, queries[i]? = some read → e.prepare catalog read = .ok (q, c) →
    r.reply (e.requests catalog (queries.take i)).length
      (e.indexPrefix ++ String.ofList (q.table.toList.takeWhile (· ≠ '.'))) = .error cause →
    (e.outputs catalog r kept queries)[i]? = some (.error (.backendCall cause c.request))
  /-- Else the query gives what it decodes the next response to. -/
  decoded : ∀ i read q c response, queries[i]? = some read →
    e.prepare catalog read = .ok (q, c) →
    r.reply (e.requests catalog (queries.take i)).length
      (e.indexPrefix ++ String.ofList (q.table.toList.takeWhile (· ≠ '.'))) = .ok response →
    (e.outputs catalog r kept queries)[i]? = some ((c.decode q response).map fun result =>
      { result, request := c.request
        savedAs := if q.save then q.written.map queryId else none })
  /-- The saved queries change only with a query that has a result, asks to be saved and has a
  source. -/
  changed : ∀ i, (e.sessionAfter catalog r kept queries (i + 1)).saved
        = (e.sessionAfter catalog r kept queries i).saved
      ∨ ∃ q o source, queries[i]? = some (.ok q)
          ∧ (e.outputs catalog r kept queries)[i]? = some (.ok o)
          ∧ q.save = true ∧ q.written = some source
  /-- Such a query is told its name, under which the first query of this name stands from then
  on. -/
  saved : ∀ i q o source, queries[i]? = some (.ok q) →
    (e.outputs catalog r kept queries)[i]? = some (.ok o) → q.save = true →
    q.written = some source →
    o.savedAs = some (queryId source)
      ∧ ∃ first, e.firstSaved catalog r kept queries (queryId source) = some first
        ∧ ∀ n, i < n → ∃ now, (e.sessionAfter catalog r kept queries n).saved = some now
          ∧ now.find? (queryId source) = some first

theorem start_eq : ({ backend := .recorded r, saved := some kept } : Session)
    = state r kept [] [] := by
  simp [state, Recorded.after, Saved.saveAll]

theorem length_outputs : (e.outputs catalog r kept queries).length = queries.length := by
  obtain ⟨outs, hrun, hlength, -⟩ := e.runEach_eq catalog r kept [] [] queries
  rw [outputs, start_eq, hrun, hlength]

theorem getElem?_outputs {i : Nat} {read : QueryResult Query} (hi : queries[i]? = some read) :
    (e.outputs catalog r kept queries)[i]?
      = some (e.output catalog r (e.requests catalog (queries.take i)).length read) := by
  obtain ⟨outs, hrun, -, hall⟩ := e.runEach_eq catalog r kept [] [] queries
  rw [outputs, start_eq, hrun, hall i read hi, List.nil_append]

theorem outputs_take (n : Nat) : e.outputs catalog r kept (queries.take n)
    = (e.outputs catalog r kept queries).take n := by
  have happend : e.outputs catalog r kept queries
      = e.outputs catalog r kept (queries.take n)
        ++ (e.runEach catalog (queries.drop n) (e.sessionAfter catalog r kept queries n)).1 := by
    have h := e.outputs_append catalog (queries.take n) (queries.drop n)
      { backend := .recorded r, saved := some kept }
    rw [List.take_append_drop] at h
    exact h
  by_cases hn : n ≤ queries.length
  · have hlength : (e.outputs catalog r kept (queries.take n)).length = n := by
      rw [length_outputs, List.length_take_of_le hn]
    rw [happend, List.take_left' hlength]
  · have hlength : (e.outputs catalog r kept queries).length ≤ n := by
      rw [length_outputs]
      omega
    rw [List.take_of_length_le hlength, List.take_of_length_le (by omega)]

def savedBefore (n : Nat) : List Json :=
  ((queries.zip (e.outputs catalog r kept queries)).take n).filterMap source?

theorem sessionAfter_eq (n : Nat) : e.sessionAfter catalog r kept queries n
    = state r kept (e.requests catalog (queries.take n))
        (e.savedBefore catalog r kept queries n) := by
  obtain ⟨outs, hrun, -⟩ := e.runEach_eq catalog r kept [] [] (queries.take n)
  have houts : outs = (e.outputs catalog r kept queries).take n := by
    rw [← outputs_take, outputs, start_eq, hrun]
  have hsources : sources (queries.take n) outs = e.savedBefore catalog r kept queries n := by
    rw [houts, savedBefore, sources, List.zip_eq_zipWith, List.zip_eq_zipWith, List.take_zipWith]
  rw [sessionAfter, start_eq, hrun, hsources, List.nil_append, List.nil_append]

theorem requests_take_succ {i : Nat} {read : QueryResult Query} (hi : queries[i]? = some read) :
    e.requests catalog (queries.take (i + 1))
      = e.requests catalog (queries.take i) ++ (e.request? catalog read).toList := by
  unfold requests
  rw [List.take_add_one, hi, Option.toList_some, List.filterMap_append]
  cases hread : e.request? catalog read <;> simp [hread]

theorem savedBefore_succ {i : Nat} {read : QueryResult Query} {output : QueryResult Output}
    (hi : queries[i]? = some read) (ho : (e.outputs catalog r kept queries)[i]? = some output) :
    e.savedBefore catalog r kept queries (i + 1)
      = e.savedBefore catalog r kept queries i ++ (source? (read, output)).toList := by
  have hpair : (queries.zip (e.outputs catalog r kept queries))[i]? = some (read, output) :=
    List.getElem?_zip_eq_some.mpr ⟨hi, ho⟩
  unfold savedBefore
  rw [List.take_add_one, hpair, Option.toList_some, List.filterMap_append]
  cases hsource : source? (read, output) <;> simp [hsource]

/-- Once a query is saved under a name, the query that stands there is settled for good. -/
theorem find?_of_mem_savedBefore {n : Nat} {source : Json}
    (h : source ∈ e.savedBefore catalog r kept queries n) :
    ∃ first, e.firstSaved catalog r kept queries (queryId source) = some first
      ∧ (kept.saveAll (e.savedBefore catalog r kept queries n)).find? (queryId source)
        = some first := by
  have hsome : ((e.savedBefore catalog r kept queries n).find?
      fun other => queryId other == queryId source).isSome := by
    rw [List.find?_isSome]
    exact ⟨source, h, by simp⟩
  obtain ⟨found, hfound⟩ := Option.isSome_iff_exists.mp hsome
  -- the later queries of the run do not count
  have hsources : sources queries (e.outputs catalog r kept queries)
      = e.savedBefore catalog r kept queries n
        ++ ((queries.zip (e.outputs catalog r kept queries)).drop n).filterMap source? := by
    rw [sources, savedBefore, ← List.filterMap_append, List.take_append_drop]
  rw [firstSaved, hsources, List.find?_append, Saved.find?_saveAll, hfound, Option.some_or]
  cases kept.find? (queryId source) with
  | none => exact ⟨found, rfl, rfl⟩
  | some first => exact ⟨first, rfl, rfl⟩

theorem savedBefore_subset {m n : Nat} (h : m ≤ n) :
    e.savedBefore catalog r kept queries m ⊆ e.savedBefore catalog r kept queries n :=
  List.filterMap_subset _ (List.take_subset_take_left _ h)

end CleanRun

/-- **Runs are clean**: each query of a run keeps to its own request, its own response and its own
place among the saved queries, however the others end. -/
theorem runEach_clean (e : Executor) (catalog : Catalog) (r : Recorded) (kept : Saved)
    (queries : List (QueryResult Query)) : CleanRun e catalog r kept queries := by
  constructor
  case length => exact e.length_outputs catalog r kept queries
  case backend =>
    intro n
    rw [sessionAfter_eq]
    rfl
  case unsent =>
    intro i read cause hi hcause
    have hrequest : e.request? catalog read = none := by rw [request?, hcause]
    have houtput := e.getElem?_outputs catalog r kept queries hi
    rw [output, hcause] at houtput
    have hsource : source? (read, .error cause) = none := by cases read <;> rfl
    have hsent := e.requests_take_succ catalog queries hi
    rw [hrequest, Option.toList_none, List.append_nil] at hsent
    refine ⟨houtput, hsent, ?_⟩
    rw [sessionAfter_eq, sessionAfter_eq, hsent,
      e.savedBefore_succ catalog r kept queries hi houtput, hsource, Option.toList_none,
      List.append_nil]
  case sent =>
    intro i read q c hi hread
    have hrequest : e.request? catalog read = some (e.index q, c.request) := by
      rw [request?, hread]
    rw [e.requests_take_succ catalog queries hi, hrequest, Option.toList_some, index_eq]
  case refused =>
    intro i read q c cause hi hread hreply
    rw [← index_eq] at hreply
    rw [e.getElem?_outputs catalog r kept queries hi, output, hread]
    simp only [hreply, outcome]
  case decoded =>
    intro i read q c response hi hread hreply
    rw [← index_eq] at hreply
    rw [e.getElem?_outputs catalog r kept queries hi, output, hread]
    simp only [hreply, outcome]
  case changed =>
    intro i
    cases hi : queries[i]? with
    | none =>
        have hlength : queries.length ≤ i := List.getElem?_eq_none_iff.mp hi
        left
        rw [sessionAfter, sessionAfter, List.take_of_length_le hlength,
          List.take_of_length_le (by omega)]
    | some read =>
        have ho := e.getElem?_outputs catalog r kept queries hi
        rw [sessionAfter_eq, sessionAfter_eq, e.savedBefore_succ catalog r kept queries hi ho, ho]
        cases hsource : source? (read, _) with
        | none => exact Or.inl (by rw [Option.toList_none, List.append_nil]; rfl)
        | some source =>
            right
            obtain ⟨q, o, rfl, houtput, hsave, hwritten⟩ := source?_eq_some hsource
            exact ⟨q, o, source, rfl, congrArg some houtput, hsave, hwritten⟩
  case saved =>
    intro i q o source hi ho hsave hwritten
    have hsource : source ∈ e.savedBefore catalog r kept queries (i + 1) := by
      rw [e.savedBefore_succ catalog r kept queries hi ho]
      simp [source?, hsave, hwritten]
    obtain ⟨first, hfirst, -⟩ := e.find?_of_mem_savedBefore catalog r kept queries hsource
    refine ⟨?_, first, hfirst, ?_⟩
    · rw [e.getElem?_outputs catalog r kept queries hi] at ho
      rw [e.savedAs_of_output catalog (Option.some.inj ho), if_pos hsave, hwritten,
        Option.map_some]
    · intro n hn
      obtain ⟨first', hfirst', hfind⟩ := e.find?_of_mem_savedBefore catalog r kept queries
        (e.savedBefore_subset catalog r kept queries hn hsource)
      rw [hfirst] at hfirst'
      cases hfirst'
      exact ⟨_, by rw [sessionAfter_eq]; rfl, hfind⟩

end Executor

end Tabula
