import Spreadsheet.Http.Server
import Spreadsheet.Proofs.Engine.Commands
import Spreadsheet.Proofs.Engine.Events
import Spreadsheet.Proofs.Worker.Idle

/-! # Requests as batches
To the sheet a request is nothing but the batch that it brings, if it is an **edit**: a request to
the edit endpoint with its method and a body that is accepted. After any requests the engine is the
one that the batches of the edits lead to, what is read is read off this engine, and an edit that
its engine accepts is answered with the values of exactly the cells that rest on the batch. -/

namespace Spreadsheet

/-! ## Maps of pairs -/

namespace KeyMap

variable {α : Type} {pairs : List (String × α)}

/-- Pairs with different keys are the entries of their map. -/
theorem mem_toList_ofList (h : (pairs.map (·.1)).Nodup) {key : String} {a : α} :
    (key, a) ∈ (Std.ExtTreeMap.ofList pairs : KeyMap α).toList ↔ (key, a) ∈ pairs := by
  rw [Std.ExtTreeMap.mem_toList_iff_getElem?_eq_some]
  refine ⟨fun hentry => ?_, getElem?_ofList h⟩
  -- an entry comes from a pair, and two pairs of one key are the same
  have hkey : (pairs.map (·.1)).contains key :=
    Std.ExtTreeMap.mem_ofList.1 (KeyMap.mem_iff.2 ⟨a, hentry⟩)
  obtain ⟨⟨_, b⟩, hmem, rfl⟩ := List.mem_map.1 (List.contains_iff_mem.1 hkey)
  rw [getElem?_ofList h hmem] at hentry
  exact Option.some.inj hentry ▸ hmem

end KeyMap

namespace Http

open Relation

variable {w : Worker} {r : Request} {batch : Batch} {d : Dimensions}

/-! ## The facts of an edit -/

/-- If no cell was evaluated twice, an edit is answered with as many values as it counts. -/
theorem editFacts_eq (report : Report) (h : (report.evaluated.map (·.1)).Nodup) :
    ∃ cells, editFacts report = .object
        [("evaluated", .nat cells.length), ("cells", .object cells),
          ("diagnostics", .array (report.diagnostics.map Diagnostic.toJson))] ∧
      (cells.map (·.1)).Nodup ∧
      ∀ key value, (key, value) ∈ cells ↔ ∃ x, (key, x) ∈ report.evaluated ∧ value = .double x := by
  have hvalues : report.evaluated.foldl
      (fun (values : KeyMap Float) entry => values.insert entry.1 entry.2) ∅ =
        .ofList report.evaluated :=
    Std.ExtTreeMap.ofList_eq_foldl.symm
  refine ⟨(Std.ExtTreeMap.ofList report.evaluated : KeyMap Float).toList.map
    fun entry => (entry.1, .double entry.2), ?_, ?_, fun key value => ?_⟩
  · rw [editFacts, hvalues, List.length_map, Std.ExtTreeMap.length_toList,
      Std.ExtTreeMap.size_ofList (KeyMap.pairwise_of_nodup h)]
    rfl
  · rw [List.map_map]
    exact KeyMap.nodup_map_fst_toList (.ofList report.evaluated)
  · simp only [List.mem_map, Prod.exists, Prod.mk.injEq, KeyMap.mem_toList_ofList h]
    constructor
    · rintro ⟨_, x, hmem, rfl, rfl⟩
      exact ⟨x, hmem, rfl⟩
    · rintro ⟨x, hmem, rfl⟩
      exact ⟨key, x, hmem, rfl, rfl⟩

/-- What is told about a cell, where `null` stands for what it does not have. -/
theorem toJson_cell (e : Engine) (key : String) :
    (e.cell key).toJson = .object
      [("key", .string key), ("raw", (e.texts[key]?).elim .null .string),
        ("parsed", (e.graph.table[key]?).elim .null Formula.toJson),
        ("value", (e.values.get? key).elim .null .single),
        ("dependencies", .array ((e.graph.dependencies.targets key).map .string)),
        ("dependents", .array ((e.graph.dependents.targets key).map .string))] := by
  have ofOption_eq {α : Type} (f : α → Json) (found : Option α) :
      Json.ofOption f found = found.elim .null f := by
    cases found <;> rfl
  simp only [CellFacts.toJson, ofOption_eq]
  rfl

/-- The cells that an accepted batch evaluates are those that rest on it, each once. -/
theorem evaluated_of_accepts {fresh e edited : Engine} {report : Report} {s : Schedule}
    (hsound : Engine.Sound fresh e) (h : e.Accepts batch s report edited) :
    (report.evaluated.map (·.1)).Nodup ∧ ∀ key, key ∈ report.evaluated.map (·.1) ↔
      ∃ root ∈ batch,
        ReflTransGen (fun source reader => edited.graph.Reads reader source) root key := by
  have hreads : edited.graph.dependents.Leads =
      fun source reader => edited.graph.Reads reader source := by
    funext source reader
    exact propext (hsound.faithful_of_accepts h).coherent.leads_dependents_iff
  rw [h.map_fst_evaluated]
  refine ⟨Graph.nodup_order h.schedule_eq, fun key => ?_⟩
  rw [Graph.mem_order h.schedule_eq, Edges.Reaches, hreads]
  simp only [Std.ExtTreeMap.mem_keys]

/-! ## One request -/

/-- The batch that a request brings. -/
def editOf? (r : Request) : Option Batch :=
  if r.method = "POST" ∧ Endpoint.ofPath? (Target.path r.target) = some .edits then
    (batchOf r).toOption
  else none

/-- A request to an endpoint with its method is answered by the endpoint. -/
theorem respond_eq_answer {e : Endpoint} (hpath : Endpoint.ofPath? (Target.path r.target) = some e)
    (hmethod : r.method = e.method) (w : Worker) : respond w r = answer w e r := by
  have hoptions : r.method ≠ "OPTIONS" := by
    rw [hmethod]
    unfold Endpoint.method
    split <;> decide
  rw [respond, if_neg hoptions, hpath]
  exact if_pos hmethod

/-- **An edit is submitted** and answered with its outcome. -/
theorem respond_of_edit (h : w.Idle) (hedit : editOf? r = some batch) :
    respond w r = (.ofOutcome editFacts ((w.engine.apply batch).map (·.1)),
      { w with engine := w.engine.submit batch, issued := w.issued + 1 }) := by
  unfold editOf? at hedit
  split at hedit
  · rename_i hto
    have hbatch : batchOf r = .ok batch := by
      cases hbody : batchOf r with
      | error status =>
        rw [hbody] at hedit
        exact nomatch hedit
      | ok other =>
        rw [hbody] at hedit
        rw [Option.some.inj hedit]
    rw [respond_eq_answer hto.2 hto.1, answer, hbatch]
    dsimp only
    rw [h.submit]
  · exact nomatch hedit

/-- **An edit that the engine refuses** is answered with the reason and has no effect. -/
theorem respond_of_refused (h : w.Idle) (hedit : editOf? r = some batch) {cause : SheetError}
    (happly : w.engine.apply batch = .error cause) :
    (cause = .emptyBatch ∨ ∃ cells, cause = .cycle cells) ∧
      (respond w r).1 = ⟨422, .failure cause.message⟩ ∧ (respond w r).2.engine = w.engine := by
  have hcause := Engine.cause_of_apply happly
  rw [respond_of_edit h hedit, happly]
  refine ⟨hcause, ?_, Engine.submit_of_apply_eq_error happly⟩
  rcases hcause with rfl | ⟨cells, rfl⟩ <;> rfl

/-- **An edit that the engine accepts** is answered with the values of the cells that rest on its
batch. -/
theorem respond_of_accepted (h : w.Idle) {fresh edited : Engine} {report : Report}
    (hsound : Engine.Sound fresh w.engine) (hedit : editOf? r = some batch)
    (happly : w.engine.apply batch = .ok (report, edited)) :
    (respond w r).2.engine = edited ∧ ∃ cells,
      (respond w r).1 = ⟨200, .data (.object
        [("evaluated", .nat cells.length), ("cells", .object cells),
          ("diagnostics", .array (report.diagnostics.map Diagnostic.toJson))])⟩ ∧
      (cells.map (·.1)).Nodup ∧
      (∀ key value, (key, value) ∈ cells ↔
        ∃ x, (key, x) ∈ report.evaluated ∧ value = .double x) ∧
      ∀ key, key ∈ cells.map (·.1) ↔ ∃ root ∈ batch,
        ReflTransGen (fun source reader => edited.graph.Reads reader source) root key := by
  obtain ⟨s, haccepts⟩ := Engine.accepts_of_apply happly
  obtain ⟨hnodup, hkeys⟩ := evaluated_of_accepts hsound haccepts
  obtain ⟨cells, hcells, honce, hentries⟩ := editFacts_eq report hnodup
  rw [respond_of_edit h hedit, happly]
  refine ⟨Engine.submit_eq_of_apply happly, cells, congrArg (Response.ok ·) hcells, honce,
    hentries, fun key => ?_⟩
  rw [← hkeys]
  simp only [List.mem_map, Prod.exists, exists_and_right, exists_eq_right, hentries]
  exact ⟨fun ⟨_, x, hmem, _⟩ => ⟨x, hmem⟩, fun ⟨x, hmem⟩ => ⟨_, x, hmem, rfl⟩⟩

/-- An endpoint leaves the engine alone unless it is given a batch. -/
theorem answer_of_no_batch (h : w.Idle) {e : Endpoint}
    (hbatch : e = .edits → ∃ status, batchOf r = .error status) :
    ∃ issued, (answer w e r).2 = { w with issued } := by
  cases e with
  | root | health | version => exact ⟨w.issued, rfl⟩
  | snapshot =>
    refine ⟨w.issued + 1, ?_⟩
    rw [answer, h.snapshot]
  | edits =>
    obtain ⟨status, hstatus⟩ := hbatch rfl
    refine ⟨w.issued, ?_⟩
    rw [answer, hstatus]
  | cell part =>
    cases hkey : Target.decode? part with
    | none =>
      refine ⟨w.issued, ?_⟩
      rw [answer, hkey]
    | some key =>
      refine ⟨w.issued + 1, ?_⟩
      rw [answer, hkey]
      dsimp only
      rw [h.cell]

/-- **What is no edit leaves the engine alone.** -/
theorem respond_of_no_edit (h : w.Idle) (hedit : editOf? r = none) :
    ∃ issued, (respond w r).2 = { w with issued } := by
  have hsame : ∃ issued, w = { w with issued } := ⟨w.issued, rfl⟩
  unfold respond
  split
  · exact hsame
  · split
    · exact hsame
    · rename_i e hpath
      split
      · rename_i hmethod
        refine answer_of_no_batch h fun heq => ?_
        subst heq
        rw [editOf?, if_pos ⟨hmethod, hpath⟩] at hedit
        cases hbody : batchOf r with
        | error status => exact ⟨status, rfl⟩
        | ok batch =>
          rw [hbody] at hedit
          exact nomatch hedit
      · split
        · rename_i hhead
          refine answer_of_no_batch h fun heq => ?_
          subst heq
          -- HEAD is for endpoints with the method GET, and edits are not one
          exact absurd hhead.2 (by decide)
        · exact hsame

/-! ## Many requests -/

/-- The worker after requests one after another. -/
def serve (w : Worker) (requests : List Request) : Worker :=
  requests.foldl (fun w r => (respond w r).2) w

/-- After any requests the worker is idle and its engine is the one that the batches of the edits
lead to. -/
theorem serve_eq (h : w.Idle) (requests : List Request) :
    (serve w requests).Idle ∧
      (serve w requests).engine = w.engine.submitAll (requests.filterMap editOf?) := by
  induction requests generalizing w with
  | nil => exact ⟨h, rfl⟩
  | cons r requests ih =>
    cases hedit : editOf? r with
    | some batch =>
      rw [List.filterMap_cons_some hedit, serve, List.foldl_cons, respond_of_edit h hedit]
      exact ih (h.update _ _)
    | none =>
      obtain ⟨issued, heq⟩ := respond_of_no_edit h hedit
      rw [List.filterMap_cons_none hedit, serve, List.foldl_cons, heq]
      exact ih (h.update w.engine issued)

/-- A request to the edit endpoint is answered with data exactly if it is an edit that the engine
accepts. -/
theorem data_of_edits_iff (h : w.Idle)
    (hpath : Endpoint.ofPath? (Target.path r.target) = some .edits) (hmethod : r.method = "POST") :
    (∃ value, (respond w r).1 = ⟨200, .data value⟩) ↔
      ∃ batch report edited, editOf? r = some batch ∧
        w.engine.apply batch = .ok (report, edited) := by
  cases hbody : batchOf r with
  | error status =>
    have hrefused : editOf? r = none := by
      rw [editOf?, if_pos ⟨hmethod, hpath⟩, hbody]
      rfl
    rw [respond_eq_answer hpath hmethod, answer, hbody]
    refine iff_of_false (fun ⟨value, heq⟩ => nomatch heq) ?_
    rintro ⟨batch, report, edited, hedit, -⟩
    exact nomatch hrefused.symm.trans hedit
  | ok batch =>
    have hedit : editOf? r = some batch := by
      rw [editOf?, if_pos ⟨hmethod, hpath⟩, hbody]
      rfl
    rw [respond_of_edit h hedit]
    cases happly : w.engine.apply batch with
    | error cause =>
      refine iff_of_false (fun ⟨value, heq⟩ => ?_) fun ⟨other, report, edited, hother, hok⟩ => ?_
      · have hbody : Body.failure cause.message = .data value := congrArg Response.body heq
        exact nomatch hbody
      · rw [← Option.some.inj (hedit.symm.trans hother), happly] at hok
        exact nomatch hok
    | ok outcome =>
      obtain ⟨report, edited⟩ := outcome
      exact iff_of_true ⟨_, rfl⟩ ⟨batch, report, edited, hedit, happly⟩

/-- **The server refines the engine.** After any requests the engine is the one that the batches of
the edits among them lead to, and the worker runs. The next request, if it is no edit, leaves the
engine as it is. If it is one, the engine refuses the batch because it is empty or would close a
circle, the answer says so with status 422 and the engine stays as it is; or the engine accepts the
batch, and the answer has status 200 and tells as many values as it counts evaluated cells: those
reported for exactly the cells that rest on the batch. The body of an answer says whether it is one
to an accepted batch. Nothing else that is sent to the edit endpoint is answered with data. Who asks
for the snapshot is told the formulas, the texts and the rows of the engine, and who asks for a cell
what the engine has for its key. -/
theorem server_refines_engine (hspawn : Worker.spawn d = .ok w) (requests : List Request) :
    let server := serve w requests
    let e := w.engine.submitAll (requests.filterMap editOf?)
    server.engine = e ∧ server.running = true ∧
    (∀ r, editOf? r = none → (respond server r).2.engine = e) ∧
    (∀ r batch, editOf? r = some batch →
      (∀ cause, e.apply batch = .error cause →
        (cause = .emptyBatch ∨ ∃ cells, cause = .cycle cells) ∧
        (respond server r).1 = ⟨422, .failure cause.message⟩ ∧
        (∀ identifier, (respond server r).1.body.text? identifier = some (Json.object
          [("success", .bool false), ("request_id", .string identifier),
            ("error", .string cause.message)]).text) ∧
        (respond server r).2.engine = e) ∧
      ∀ report edited, e.apply batch = .ok (report, edited) →
        (respond server r).2.engine = edited ∧
        ∃ cells,
          let told := Json.object [("evaluated", .nat cells.length), ("cells", .object cells),
            ("diagnostics", .array (report.diagnostics.map Diagnostic.toJson))]
          (respond server r).1 = ⟨200, .data told⟩ ∧
          (∀ identifier, (respond server r).1.body.text? identifier = some (Json.object
            [("success", .bool true), ("request_id", .string identifier), ("data", told)]).text) ∧
          (cells.map (·.1)).Nodup ∧
          (∀ key value, (key, value) ∈ cells ↔
            ∃ x, (key, x) ∈ report.evaluated ∧ value = .double x) ∧
          ∀ key, key ∈ cells.map (·.1) ↔ ∃ root ∈ batch,
            ReflTransGen (fun source reader => edited.graph.Reads reader source) root key) ∧
    (∀ r, Endpoint.ofPath? (Target.path r.target) = some .edits → r.method = "POST" →
      ((∃ value, (respond server r).1 = ⟨200, .data value⟩) ↔
        ∃ batch report edited, editOf? r = some batch ∧ e.apply batch = .ok (report, edited))) ∧
    (∀ r, Endpoint.ofPath? (Target.path r.target) = some .snapshot → r.method = "GET" →
      (respond server r).1 = ⟨200, .data (.object
        [("parsedExpressions",
            .object (e.graph.table.toList.map fun (key, formula) => (key, formula.toJson))),
          ("rawExpressions", .object (e.texts.toList.map fun (key, text) => (key, .string text))),
          ("rowData", .array ((labelledRows e.shown).map fun row => .array (row.map .string)))])⟩) ∧
    ∀ r part key, Endpoint.ofPath? (Target.path r.target) = some (.cell part) → r.method = "GET" →
      Target.decode? part = some key →
      (respond server r).1 = ⟨200, .data (.object
        [("key", .string key), ("raw", (e.texts[key]?).elim .null .string),
          ("parsed", (e.graph.table[key]?).elim .null Formula.toJson),
          ("value", (e.values.get? key).elim .null .single),
          ("dependencies", .array ((e.graph.dependencies.targets key).map .string)),
          ("dependents", .array ((e.graph.dependents.targets key).map .string))])⟩ := by
  intro server e
  obtain ⟨hidle, hengine⟩ : server.Idle ∧ server.engine = e :=
    serve_eq (Worker.idle_of_spawn hspawn) requests
  have hsound : Engine.Sound w.engine e :=
    Engine.sound_submitAll (Worker.new_of_spawn hspawn) (requests.filterMap editOf?)
  refine ⟨hengine, hidle.running, fun r hedit => ?_, fun r batch hedit => ⟨fun cause happly => ?_,
    fun report edited happly => ?_⟩, fun r hpath hmethod => ?_, fun r hpath hmethod => ?_,
    fun r part key hpath hmethod hkey => ?_⟩
  · obtain ⟨issued, heq⟩ := respond_of_no_edit hidle hedit
    rw [heq]
    exact hengine
  · rw [← hengine] at happly
    obtain ⟨hcause, hanswer, hsame⟩ := respond_of_refused hidle hedit happly
    exact ⟨hcause, hanswer, fun identifier => by rw [hanswer]; rfl, hsame.trans hengine⟩
  · rw [← hengine] at happly hsound
    obtain ⟨hedited, cells, hanswer, hcells⟩ := respond_of_accepted hidle hsound hedit happly
    exact ⟨hedited, cells, hanswer, fun identifier => by rw [hanswer]; rfl, hcells⟩
  · rw [data_of_edits_iff hidle hpath hmethod, hengine]
  · rw [respond_eq_answer hpath hmethod, answer, hidle.snapshot, hengine]
    rfl
  · rw [respond_eq_answer hpath hmethod, answer, hkey]
    dsimp only
    rw [hidle.cell, hengine]
    exact congrArg (Response.ok ·) (toJson_cell e key)

/-- After a number and its successor came in and the snapshot was read, a request that changes the
number is answered with the values of both cells. -/
theorem successor_told_after_edit :
    let d : Dimensions := ⟨2, 1, by decide, by decide⟩
    let post (body : String) : Request :=
      ⟨"POST", "/api/v1/edits", some "application/json", body⟩
    let first :=
      post "\x7b\x22expressions\x22:\x7b\x22A1\x22:\x221\x22,\x22B1\x22:\x22A1 + 1\x22\x7d\x7d"
    let second := post "\x7b\x22expressions\x22:\x7b\x22A1\x22:\x222\x22\x7d\x7d"
    let read : Request := ⟨"GET", "/api/v1/snapshot", none, ""⟩
    let requests : List Request := [first, read]
    ∃ w cells diagnostics, Worker.spawn d = .ok w ∧
      (serve w requests).engine = w.engine.submitAll [.ofList [("A1", "1"), ("B1", "A1 + 1")]] ∧
      (respond (serve w requests) second).1 = ⟨200, .data (.object
        [("evaluated", .nat cells.length), ("cells", .object cells),
          ("diagnostics", .array diagnostics)])⟩ ∧
      "A1" ∈ cells.map (·.1) ∧ "B1" ∈ cells.map (·.1) := by
  intro d post first second read requests
  obtain ⟨fresh, hnew⟩ := Engine.exists_new (d := d) (by decide)
  have hspawn : Worker.spawn d = .ok ⟨fresh, true, [], [], 0, [], []⟩ := by
    rw [Worker.spawn, hnew]
    rfl
  let earlier : Batch := .ofList [("A1", "1"), ("B1", "A1 + 1")]
  let later : Batch := .ofList [("A1", "2")]
  let rank (key : String) : Nat := if key = "A1" then 0 else 1
  have hfirst : editOf? first = some earlier := by
    simp only [first, post]
    rfl
  have hread : editOf? read = none := rfl
  have hsecond : editOf? second = some later := by
    simp only [second, post]
    rfl
  have hbatches : requests.filterMap editOf? = [earlier] := by
    rw [List.filterMap_cons_some hfirst, List.filterMap_cons_none hread]
    rfl
  have hsound : Engine.Sound fresh (fresh.submitAll [earlier]) :=
    Engine.sound_submitAll hnew [earlier]
  have htexts : (fresh.submitAll [earlier]).texts = earlier :=
    Engine.texts_submit_new hnew (by decide +kernel)
      (Edges.acyclic_of_rank rank (by decide +kernel))
  obtain ⟨report, edited, happly⟩ :
      ∃ report edited, (fresh.submitAll [earlier]).apply later = .ok (report, edited) := by
    refine hsound.exists_apply (by decide +kernel) ?_
    rw [htexts]
    exact Edges.acyclic_of_rank rank (by decide +kernel)
  obtain ⟨s, haccepts⟩ := Engine.accepts_of_apply happly
  have htable := (hsound.of_accepts haccepts).table_of_texts (by rw [haccepts.texts_eq, htexts])
  have hreads : edited.graph.Reads "B1" "A1" := by
    refine ⟨.operation .add (.reference "A1") (.literal 1), ?_, by decide⟩
    rw [htable]
    decide +kernel
  obtain ⟨hengine, -, -, hedits, -⟩ := server_refines_engine hspawn requests
  rw [hbatches] at hengine hedits
  obtain ⟨-, haccepted⟩ := hedits second later hsecond
  obtain ⟨-, cells, hanswer, -, -, -, hkeys⟩ := haccepted report edited happly
  have hroot : "A1" ∈ later := by decide +kernel
  exact ⟨_, cells, _, hspawn, hengine, hanswer, (hkeys "A1").2 ⟨"A1", hroot, .refl⟩,
    (hkeys "B1").2 ⟨"A1", hroot, .single hreads⟩⟩

end Http

end Spreadsheet
