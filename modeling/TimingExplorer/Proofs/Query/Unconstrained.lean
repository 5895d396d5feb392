import Mathlib.Data.List.Perm.Basic
import TimingExplorer.Proofs.Double
import TimingExplorer.Proofs.Query.Loaded
import TimingExplorer.Proofs.Query.Outcome
import TimingExplorer.Proofs.Query.Requests

/-!
Unconstrained paths on request. A slack that is read is finite, and a path without one has an
infinite slack, so of the paths of a loaded design the unconstrained ones rank last. To ask for them
as well leaves those found without them where they are and can only fill the places behind them.
-/
namespace TimingExplorer

/-! ## Slacks that are read -/

namespace Document.Decoder

theorem exists_of_list {α : Type} {decode : Decoder α} {v : Value} {items : List α}
    (read : list decode v = some items) : ∀ a ∈ items, ∃ w, decode w = some a := by
  cases v with
  | array values =>
    simp only [list] at read
    induction values generalizing items with
    | nil =>
      obtain rfl := Option.some.inj read
      intro a member
      cases member
    | cons first rest ih =>
      rw [List.mapM_cons] at read
      obtain ⟨a, readFirst, read⟩ := Option.bind_eq_some_iff.mp read
      obtain ⟨others, readRest, read⟩ := Option.bind_eq_some_iff.mp read
      obtain rfl := Option.some.inj read
      exact List.forall_mem_cons.mpr ⟨⟨first, readFirst⟩, ih readRest⟩
  | _ => cases read

end Document.Decoder

/-- What is read of a field was written, or it is the default. -/
theorem Document.Fields.of_withDefault {α : Type} {r : Fields} {name : String} {default a : α}
    {decode : Decoder α} (read : r.withDefault name default decode = some a) :
    a = default ∨ ∃ v, decode v = some a := by
  unfold withDefault at read
  split at read
  · exact .inl (Option.some.inj read).symm
  · next v _ => exact .inr ⟨v, read⟩

theorem Document.Decoder.finite_of_real {v : Value} {x : Double} (read : real v = some x) :
    x.isFinite = true :=
  (Option.filter_eq_some_iff.mp read).2

theorem Document.Decoder.of_nullable {α : Type} {decode : Decoder α} {v : Value} {a : α}
    (read : decode.nullable v = some (some a)) : decode v = some a := by
  unfold nullable at read
  split at read
  · cases Option.some.inj read
  · simpa using read

namespace Snapshot

open Document

variable {v : Value} {s : Snapshot} {spec : PathSpec}

theorem PathSpec.finite_of_decode (read : decode v = some spec) :
    ∀ x ∈ spec.slack, x.isFinite = true := by
  obtain ⟨r, _, read⟩ := Option.bind_eq_some_iff.mp read
  simp only [ofFields?, Option.bind_eq_bind, Option.bind_eq_some_iff, Option.pure_def,
    Option.some.injEq] at read
  obtain ⟨_, _, _, _, _, _, _, _, slack, readSlack, _, _, _, _, _, _, _, _, _, _, rfl⟩ := read
  intro x written
  obtain rfl : slack = some x := written
  rcases Fields.of_withDefault readSlack with absent | ⟨w, given⟩
  · cases absent
  · exact Decoder.finite_of_real (Decoder.of_nullable given)

theorem finite_of_decode (read : decode v = some s) :
    ∀ spec ∈ s.paths, ∀ x ∈ spec.slack, x.isFinite = true := by
  obtain ⟨r, _, read⟩ := Option.bind_eq_some_iff.mp read
  simp only [ofFields?, Option.bind_eq_bind, Option.bind_eq_some_iff, Option.pure_def,
    Option.some.injEq] at read
  obtain ⟨_, _, _, _, _, _, _, _, _, _, paths, readPaths, rfl⟩ := read
  intro spec listed
  rcases Fields.of_withDefault readPaths with rfl | ⟨w, given⟩
  · cases listed
  · obtain ⟨written, readSpec⟩ := Decoder.exists_of_list given spec listed
    exact PathSpec.finite_of_decode readSpec

theorem mem_of_mem_pathEntries {entry : PathEntry} (listed : entry ∈ s.pathEntries) :
    ∃ spec ∈ s.paths, entry = .launch spec ∨ ∃ captured, entry = .capture spec captured := by
  obtain ⟨spec, written, member⟩ := List.mem_flatMap.mp listed
  refine ⟨spec, written, ?_⟩
  rcases List.mem_cons.mp member with rfl | member
  · exact .inl rfl
  · obtain ⟨captured, _, rfl⟩ := Option.map_eq_some_iff.mp (Option.mem_toList.mp member)
    exact .inr ⟨captured, rfl⟩

end Snapshot

namespace Design

open Document

variable {text : String} {s : Snapshot} {d : Design} {path : PathId} {p : StoredPath}

theorem exists_snapshot (loaded : ofText text = .ok d) : ∃ v s, Json.read? text = some v ∧
    Snapshot.decode v = some s ∧ ofSnapshot s = .ok d := by
  unfold ofText at loaded
  split at loaded
  · cases loaded
  · next s read =>
    obtain ⟨v, parsed, decoded⟩ := Option.bind_eq_some_iff.mp read
    split at loaded
    · cases loaded
    · next made =>
      obtain rfl := Except.ok.inj loaded
      exact ⟨v, s, parsed, decoded, made⟩

/-- A stored slack is a written one, or it is infinite. -/
theorem slack_of_stored (stored : Stored s d) (found : d.paths.get? path = some p) :
    p.summary.slack = Double.infinity ∨ ∃ spec ∈ s.paths, spec.slack = some p.summary.slack := by
  obtain ⟨entry, listed, written⟩ := stored.exists_entry found
  obtain ⟨spec, member, rfl | ⟨captured, rfl⟩⟩ :=
    Snapshot.mem_of_mem_pathEntries (List.mem_of_getElem? listed)
  · obtain ⟨corner, stages, _, _, rfl⟩ := written
    cases slack : spec.slack with
    | none => exact .inl rfl
    | some x => exact .inr ⟨spec, member, slack⟩
  · obtain ⟨corner, stages, _, _, rfl⟩ := written
    exact .inl rfl

theorem slack_of_loaded (loaded : ofText text = .ok d) (found : d.paths.get? path = some p) :
    p.summary.slack.isFinite = true ∨ p.summary.slack = Double.infinity := by
  obtain ⟨v, s, _, decoded, made⟩ := exists_snapshot loaded
  have stored := (Contents.of_loaded made).stored
  rcases slack_of_stored stored found with infinite | ⟨spec, member, slack⟩
  · exact .inr infinite
  · exact .inl (Snapshot.finite_of_decode decoded spec member _ slack)

end Design

/-! ## Searches -/

/-- Where the items that pass a test come first, they are the beginning of the list. -/
theorem filter_append_filter_not {α : Type} {items : List α} {test : α → Bool}
    (first : items.Pairwise fun a b => test b = true → test a = true) :
    items.filter test ++ items.filter (!test ·) = items := by
  induction first with
  | nil => rfl
  | @cons a rest earlier _ ih =>
    cases passed : test a with
    | true =>
      rw [List.filter_cons_of_pos passed, List.filter_cons_of_neg (by simp [passed]),
        List.cons_append, ih]
    | false =>
      -- Nothing behind the first item that does not pass passes any more.
      have none : ∀ b ∈ rest, test b = false := by
        intro b member
        apply Bool.eq_false_iff.mpr
        intro later
        rw [earlier b member later] at passed
        cases passed
      rw [List.filter_cons_of_neg (by simp [passed]), List.filter_cons_of_pos (by simp [passed]),
        List.filter_eq_nil_iff.mpr (by simpa using none),
        List.filter_eq_self.mpr (by simpa using none), List.nil_append]

namespace Design

variable {d : Design} {s : PathSearch} {path : PathId} {p : StoredPath}

/-- A path with a timing check. -/
def StoredPath.isConstrained (p : StoredPath) : Bool := !p.summary.slack.isInfinite

theorem StoredPath.fits_constrained (p : StoredPath) (s : PathSearch) :
    p.fits { s with unconstrained := false } =
      (p.fits { s with unconstrained := true } && p.isConstrained) := by
  simp only [StoredPath.fits, isConstrained, Bool.false_or, Bool.true_or, Bool.and_true]
  generalize p.summary.slack.isInfinite = infinite
  cases infinite <;> simp [startStage?]

theorem Precedes.rank_le {a b : PathId × StoredPath} (ordered : Precedes a b) :
    a.2.summary.slack.rank ≤ b.2.summary.slack.rank := by
  rcases ordered with less | ⟨same, _⟩
  · exact Int.le_of_lt (Double.totalLess_iff.mp less)
  · exact Int.le_of_eq (congrArg Double.rank same)

theorem Precedes.asymm {a b : PathId × StoredPath} (first : Precedes a b) : ¬ Precedes b a := by
  intro second
  have above := second.rank_le
  have below := first.rank_le
  simp only [Precedes, Double.totalLess_iff] at first second
  rcases first with less | ⟨_, less⟩
  · omega
  · rcases second with less' | ⟨_, less'⟩ <;> omega

theorem nodup_ranking (d : Design) (s : PathSearch) : (d.ranking s).Nodup :=
  (nodup_ranking_ids d s).of_map Prod.fst

/-- To leave the unconstrained paths out leaves the order of the others as it is. -/
theorem ranking_constrained (d : Design) (s : PathSearch) :
    d.ranking { s with unconstrained := false } =
      (d.ranking { s with unconstrained := true }).filter (·.2.isConstrained) := by
  have same : (d.ranking { s with unconstrained := false }).Perm
      ((d.ranking { s with unconstrained := true }).filter (·.2.isConstrained)) := by
    apply (List.perm_ext_iff_of_nodup (nodup_ranking d _) ((nodup_ranking d _).filter _)).mpr
    rintro ⟨path, p⟩
    rw [List.mem_filter, mem_ranking, mem_ranking, p.fits_constrained, Bool.and_eq_true, and_assoc]
  apply same.eq_of_pairwise _ (pairwise_ranking d _) ((pairwise_ranking d _).filter _)
  intro a b _ _ first second
  exact absurd second first.asymm

/-- The slacks of a design are finite, or infinite like that of a path without one. -/
def SlacksRead (d : Design) : Prop :=
  ∀ path p, d.paths.get? path = some p →
    p.summary.slack.isFinite = true ∨ p.summary.slack = Double.infinity

theorem SlacksRead.finite (slacks : d.SlacksRead) (found : d.paths.get? path = some p)
    (constrained : p.isConstrained = true) : p.summary.slack.isFinite = true := by
  rcases slacks path p found with finite | infinite
  · exact finite
  · simp [StoredPath.isConstrained, infinite] at constrained

theorem SlacksRead.infinite (slacks : d.SlacksRead) (found : d.paths.get? path = some p)
    (unconstrained : p.isConstrained = false) : p.summary.slack = Double.infinity := by
  rcases slacks path p found with finite | infinite
  · simp [StoredPath.isConstrained, Double.not_isInfinite finite] at unconstrained
  · exact infinite

/-- The constrained paths rank before the others. -/
theorem SlacksRead.constrained_first (slacks : d.SlacksRead) (s : PathSearch) :
    (d.ranking s).Pairwise fun a b => b.2.isConstrained = true → a.2.isConstrained = true := by
  apply (pairwise_ranking d s).imp_of_mem
  rintro ⟨path, p⟩ ⟨path', p'⟩ first second ordered constrained
  cases here : p.isConstrained with
  | true => rfl
  | false =>
    have infinite := slacks.infinite (mem_ranking.mp first).1 here
    have below := Double.rank_lt_infinity (slacks.finite (mem_ranking.mp second).1 constrained)
    have above : p.summary.slack.rank ≤ p'.summary.slack.rank :=
      ordered.rank_le
    rw [infinite] at above
    omega

/-- With the unconstrained paths the same paths are found as without them, and behind them only
unconstrained ones. -/
theorem SlacksRead.findPaths_split (slacks : d.SlacksRead) (s : PathSearch) : ∃ more,
    d.findPaths { s with unconstrained := true } =
        d.findPaths { s with unconstrained := false } ++ more ∧
      ∀ path ∈ more, ∃ p, d.paths.get? path = some p ∧ p.summary.slack = Double.infinity := by
  let all := d.ranking { s with unconstrained := true }
  let constrained := all.filter (·.2.isConstrained)
  let others := all.filter (!·.2.isConstrained)
  have whole : constrained ++ others = all := filter_append_filter_not (slacks.constrained_first _)
  have found := findPaths_eq d { s with unconstrained := true } s.maxPaths
  have found' := findPaths_eq d { s with unconstrained := false } s.maxPaths
  rw [ranking_constrained] at found'
  refine ⟨(others.take (s.maxPaths - constrained.length)).map Prod.fst, ?_, ?_⟩
  · calc d.findPaths { s with unconstrained := true }
      _ = (all.take s.maxPaths).map Prod.fst := found
      _ = ((constrained ++ others).take s.maxPaths).map Prod.fst := by rw [whole]
      _ = (constrained.take s.maxPaths).map Prod.fst ++
            (others.take (s.maxPaths - constrained.length)).map Prod.fst := by
        rw [List.take_append, List.map_append]
      _ = _ := congrArg (· ++ _) found'.symm
  · intro path member
    obtain ⟨⟨_, p⟩, taken, rfl⟩ := List.mem_map.mp member
    obtain ⟨ranked, unconstrained⟩ := List.mem_filter.mp (List.mem_of_mem_take taken)
    have found := (mem_ranking.mp ranked).1
    exact ⟨p, found, slacks.infinite found (by simpa using unconstrained)⟩

end Design

/-! ## Answers -/

namespace QueryService

variable {ctx : Context} {config config' : AnalysisConfig} {s : QueryService}
  {records records' : List PathRecord}

theorem buildRecords_congr
    (same : ∀ path, buildRecord ctx config path = buildRecord ctx config' path)
    (paths : List PathId) : buildRecords ctx config paths = buildRecords ctx config' paths := by
  induction paths with
  | nil => rfl
  | cons path rest ih => rw [buildRecords, buildRecords, same, ih]

/-- The records of the first paths come first. -/
theorem exists_more_records {paths more : List PathId}
    (built : buildRecords ctx config paths = .ok records)
    (built' : buildRecords ctx config (paths ++ more) = .ok records') :
    ∃ later, buildRecords ctx config more = .ok later ∧ records' = records ++ later := by
  induction paths generalizing records records' with
  | nil =>
    obtain rfl := Except.ok.inj built
    exact ⟨records', built', rfl⟩
  | cons path rest ih =>
    obtain ⟨r, here, built⟩ := bind_eq_ok.mp built
    obtain ⟨others, found, built⟩ := bind_eq_ok.mp built
    obtain rfl := Except.ok.inj built
    obtain ⟨r', here', built'⟩ := bind_eq_ok.mp built'
    obtain ⟨others', found', built'⟩ := bind_eq_ok.mp built'
    obtain rfl := Except.ok.inj built'
    obtain rfl := Except.ok.inj (here.symm.trans here')
    obtain ⟨later, made, rfl⟩ := ih found found'
    exact ⟨later, made, rfl⟩

/-- Whether unconstrained paths are included makes a difference only once the engine is asked. -/
theorem timingPathsWith_includeUnconstrained (s : QueryService) (config : AnalysisConfig)
    (starts : PinSet) (throughs : List PinSet) (ends : PinSet) :
    let answer (includeUnconstrained : Bool) :=
      s.timingPathsWith { config with includeUnconstrained } starts throughs ends
    answer true = answer false ∨ ∃ ctx point, s.context = .ok ctx ∧ ∀ unconstrained,
      answer unconstrained = buildRecords ctx config ((ctx.engine.findPaths
        { starts, throughs, ends, point, maxPaths := config.maxPathCount
          unconstrained }).take config.maxPathCount) := by
  intro answer
  cases bound : s.context with
  | error e =>
    have failed (b : Bool) : answer b = .error e := timingPathsWith_of_unbound bound
    exact .inl ((failed true).trans (failed false).symm)
  | ok ctx =>
    cases resolved : pointOf ctx.engine config with
    | error e =>
      have failed (b : Bool) : answer b = .error e := timingPathsWith_of_unresolved bound resolved
      exact .inl ((failed true).trans (failed false).symm)
    | ok point =>
      have resolved (b : Bool) :
          pointOf ctx.engine { config with includeUnconstrained := b } = .ok point := resolved
      cases sought : (requestedPins starts throughs ends).find? (!ctx.engine.containsPin ·) with
      | some pin =>
        have failed (b : Bool) : answer b = .error (.unknownPin pin) :=
          timingPathsWith_of_unknown bound (resolved b) (find?_requestedPins.mp sought)
        exact .inl ((failed true).trans (failed false).symm)
      | none =>
        have known := find?_requestedPins_eq_none.mp sought
        by_cases nothing : config.maxPathCount = 0 ∨ throughs.any (·.isEmpty) = true
        · have empty (b : Bool) : answer b = .ok [] :=
            (timingPathsWith_of_known bound (resolved b) known).trans (if_pos nothing)
          exact .inl ((empty true).trans (empty false).symm)
        · refine .inr ⟨ctx, point, rfl, fun b => ?_⟩
          have built : answer b = buildRecords ctx { config with includeUnconstrained := b } _ :=
            (timingPathsWith_of_known bound (resolved b) known).trans (if_neg nothing)
          have same (path : PathId) :
              buildRecord ctx { config with includeUnconstrained := b } path =
              buildRecord ctx config path := rfl
          exact built.trans (buildRecords_congr same _)

end QueryService

namespace Design

open QueryService

variable {text : String} {d : Design}

/-- A record of an unconstrained path says so by its slack. -/
theorem slack_of_buildRecord {ctx : Context} {config : AnalysisConfig} {path : PathId}
    {p : StoredPath} {r : PathRecord} (bound : ctx.engine = d.engine)
    (found : d.paths.get? path = some p) (built : buildRecord ctx config path = .ok r) :
    r.slack = p.summary.slack := by
  have known : d.engine.pathSummary path = some r.summary := by
    rw [← bound]
    exact (buildRecord_describes built).summary
  have stored : d.engine.pathSummary path = some p.summary := congrArg (Option.map _) found
  exact congrArg PathSummary.slack (Option.some.inj (known.symm.trans stored))

theorem length_findPaths (d : Design) (s : PathSearch) :
    (d.findPaths s).length = min s.maxPaths (d.fittingPaths s).length := by
  rw [findPaths, List.length_map, List.length_take, List.length_mergeSort]

/-- Behind the records of the paths that are found in any case stand those of unconstrained ones. -/
theorem SlacksRead.records_split (slacks : d.SlacksRead) {ctx : Context} {config : AnalysisConfig}
    {records records' : List PathRecord} (same : ctx.engine = d.engine) (search : PathSearch)
    (built : buildRecords ctx config
      ((d.findPaths { search with unconstrained := false }).take config.maxPathCount) = .ok records)
    (built' : buildRecords ctx config
      ((d.findPaths { search with unconstrained := true }).take config.maxPathCount) =
        .ok records') :
    ∃ more, records' = records ++ more ∧ ∀ r ∈ more, r.slack = Double.infinity := by
  obtain ⟨more, found, unconstrained⟩ := slacks.findPaths_split search
  rw [found, List.take_append] at built'
  obtain ⟨later, made, rfl⟩ := exists_more_records built built'
  refine ⟨later, rfl, ?_⟩
  intro r member
  obtain ⟨path, taken, here⟩ := exists_of_forall₂_of_mem (forall₂_buildRecord made) member
  obtain ⟨p, stored, infinite⟩ := unconstrained path (List.mem_of_mem_take taken)
  rw [slack_of_buildRecord same stored here, infinite]

section Answers

variable {s : QueryService} {config : AnalysisConfig} {starts ends : PinSet}
  {throughs : List PinSet} {records records' : List PathRecord}

/-- With unconstrained paths an answer goes on where it ends without them. -/
theorem SlacksRead.answer_split (slacks : d.SlacksRead) (engine : s.engine = some d.engine)
    (answered : s.timingPathsWith { config with includeUnconstrained := false } starts throughs
      ends = .ok records)
    (answered' : s.timingPathsWith { config with includeUnconstrained := true } starts throughs
      ends = .ok records') :
    ∃ more, records' = records ++ more ∧ ∀ r ∈ more, r.slack = Double.infinity := by
  rcases timingPathsWith_includeUnconstrained s config starts throughs ends with
    same | ⟨ctx, point, bound, built⟩
  · obtain rfl := Except.ok.inj (answered.symm.trans (same.symm.trans answered'))
    exact ⟨[], (List.append_nil _).symm, fun r none => absurd none List.not_mem_nil⟩
  · have bound := engine_of_context bound engine
    rw [bound] at built
    exact slacks.records_split bound
      { starts, throughs, ends, point, maxPaths := config.maxPathCount, unconstrained := true }
      ((built false).symm.trans answered) ((built true).symm.trans answered')

/-- A design can answer for all of its paths, so it never fails because of unconstrained ones. -/
theorem SelfContained.fails_alike (closed : d.SelfContained) (engine : s.engine = some d.engine)
    (database : s.database = some d.database) (e : QueryError) :
    s.timingPathsWith { config with includeUnconstrained := true } starts throughs ends = .error e ↔
      s.timingPathsWith { config with includeUnconstrained := false } starts throughs ends =
        .error e := by
  rcases timingPathsWith_includeUnconstrained s config starts throughs ends with
    same | ⟨ctx, point, bound, built⟩
  · exact iff_of_eq (congrArg (· = .error e) same)
  · obtain rfl : d.context = ctx := by
      rw [QueryService.context, engine, database] at bound
      exact Except.ok.inj bound
    have answered (b : Bool) : ∃ records, s.timingPathsWith
        { config with includeUnconstrained := b } starts throughs ends = .ok records := by
      have known : ∀ path ∈ (d.findPaths
          { starts, throughs, ends, point, maxPaths := config.maxPathCount
            unconstrained := b }).take config.maxPathCount, d.paths.contains path = true :=
        fun path listed => contains_of_mem_findPaths (List.mem_of_mem_take listed)
      obtain ⟨records, made⟩ := closed.exists_records known
      exact ⟨records, (built b).trans made⟩
    exact iff_of_false (exists_ok_iff.mp (answered true) e) (exists_ok_iff.mp (answered false) e)

end Answers

/-- Unconstrained paths of a design that was read stand behind the others. A search finds the same
paths with them as without them, and then perhaps more. So does a query, whatever database it runs
on: its first records stay, and those behind them are of unconstrained paths. If the design is its
own database, it does not fail for them either. -/
theorem constrained_remain (loaded : ofText text = .ok d) :
    (∀ path p, d.paths.get? path = some p →
        p.summary.slack.isFinite = true ∨ p.summary.slack = Double.infinity) ∧
      (∀ search : PathSearch, d.findPaths { search with unconstrained := false } <+:
        d.findPaths { search with unconstrained := true }) ∧
      ∀ (s : QueryService) (config : AnalysisConfig) (starts : PinSet) (throughs : List PinSet)
        (ends : PinSet), s.engine = some d.engine →
        let answer (includeUnconstrained : Bool) :=
          s.timingPathsWith { config with includeUnconstrained } starts throughs ends
        (∀ records records', answer false = .ok records → answer true = .ok records' →
          ∃ more, records' = records ++ more ∧ ∀ r ∈ more, r.slack = Double.infinity) ∧
        (s.database = some d.database → ∀ e, answer true = .error e ↔ answer false = .error e) := by
  have slacks : d.SlacksRead := fun _ _ => slack_of_loaded loaded
  refine ⟨slacks, ?_, ?_⟩
  · intro search
    obtain ⟨more, found, _⟩ := slacks.findPaths_split search
    rw [found]
    exact List.prefix_append _ _
  · intro s config starts throughs ends engine answer
    obtain ⟨_, _, _, _, made⟩ := exists_snapshot loaded
    constructor
    · intro records records' answered answered'
      exact slacks.answer_split engine answered answered'
    · intro database e
      exact (SelfContained.of_loaded made).fails_alike engine database e

/-- Of two paths that end where they begin the one without a slack is stored first. -/
def slackWrittenLate : String :=
  "\x7b\"corners\":[\"typ\"],\"ports\":[\x7b\"name\":\"a\",\"direction\":\"input\"\x7d]," ++
    "\"paths\":[" ++
    "\x7b\"corner\":\"typ\",\"stages\":[\x7b\"pin\":\"a\",\"arrival\":0\x7d]\x7d," ++
    "\x7b\"corner\":\"typ\",\"slack\":0,\"stages\":[\x7b\"pin\":\"a\",\"arrival\":0\x7d]\x7d]\x7d"

/-- The two worst paths of a design, whatever they pass. -/
def anyPath (unconstrained : Bool) : PathSearch where
  starts := ∅
  throughs := []
  ends := ∅
  point := ⟨⟨0⟩, .max⟩
  maxPaths := 2
  unconstrained := unconstrained

theorem constrained_remain_slackWrittenLate : ∃ d, ofText slackWrittenLate = .ok d ∧
    (d.findPaths (anyPath false)).length = 1 ∧ (d.findPaths (anyPath true)).length = 2 ∧
      d.findPaths (anyPath false) <+: d.findPaths (anyPath true) ∧
      ∃ records more, (ofContext d.context).timingPathsWith {} ∅ [] ∅ = .ok records ∧
        (ofContext d.context).timingPathsWith { includeUnconstrained := true } ∅ [] ∅ =
          .ok (records ++ more) ∧ ∀ r ∈ more, r.slack = Double.infinity := by
  have facts : (ofText slackWrittenLate).toOption.map (fun d => (d.defaultCorner,
      (d.fittingPaths (anyPath false)).length, (d.fittingPaths (anyPath true)).length)) =
        some (some ⟨0⟩, 1, 2) := by decide +kernel
  cases loaded : ofText slackWrittenLate with
  | error e =>
    rw [loaded] at facts
    cases facts
  | ok d =>
    rw [loaded] at facts
    simp only [Except.toOption, Option.map_some, Option.some.injEq, Prod.mk.injEq] at facts
    obtain ⟨corner, one, two⟩ := facts
    obtain ⟨_, found, queries⟩ := constrained_remain loaded
    obtain ⟨split, _⟩ := queries (ofContext d.context) {} ∅ [] ∅ rfl
    have answered (b : Bool) : ∃ records, (ofContext d.context).timingPathsWith
        { includeUnconstrained := b } ∅ [] ∅ = .ok records := by
      obtain ⟨_, _, _, _, made⟩ := exists_snapshot loaded
      have resolved : pointOf d.engine { includeUnconstrained := b } = .ok ⟨⟨0⟩, .max⟩ := by
        have first : d.engine.defaultCorner = some ⟨0⟩ := corner
        simp only [pointOf, first]
        rfl
      have known : ∀ group ∈ (∅ : PinSet) :: [] ++ [∅], ∀ pin ∈ group,
          d.engine.containsPin pin = true := find?_requestedPins_eq_none.mp rfl
      have closed := SelfContained.of_loaded made
      refine exists_answer_iff.mpr ⟨d.context, _, rfl, pointOf_eq_ok.mp resolved, known, ?_⟩
      intro _ _ path listed
      have stored := contains_of_mem_findPaths (List.mem_of_mem_take listed)
      exact Context.records_iff.mpr (closed.not_recordFailure stored)
    obtain ⟨records, first⟩ := answered false
    obtain ⟨records', all⟩ := answered true
    obtain ⟨more, rfl, infinite⟩ := split records records' first all
    refine ⟨d, rfl, ?_, ?_, found (anyPath true), records, more, first, all, infinite⟩
    · rw [length_findPaths, one]
      rfl
    · rw [length_findPaths, two]
      rfl

end Design

end TimingExplorer
