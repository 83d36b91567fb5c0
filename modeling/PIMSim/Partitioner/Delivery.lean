import PIMSim.Partitioner.InsPartition

/-!
# Delivery of the traces

The instruction that answers the end of a trace does not say whose trace it was: it names the
default processor. The flag that stops the fetching of a trace is therefore always that of the first
processor, and the traces are delivered exactly as long as no other trace ends.

## Main definitions

* `Feed.Delivers`: every trace is read once and in order, and each flag tells that its trace has
  ended
* `Feed.NoOtherEnds`: no processor but the first is asked for an input at the end of its trace

## Main results

* `Feed.delivers_iff`: a run delivers the traces exactly when its steps meet `NoOtherEnds`
-/

namespace PIMSim.Feed

open CSharp Transition

/-- The inputs that were fetched for processor `i`. -/
def fetchedFrom (f : Feed) (i : ℕ) : List TraceInput :=
  (f.fetched.filter fun e => e.1 = i).map Prod.snd

/-- Every trace is read once and in order, every input is in the queue that is selected for it or was
handed out from there, and a flag is set exactly when its own trace has been read to the end. -/
structure Delivers (cfg : Config) (read : Reader) (traces : List (List Line)) (f : Feed) :
    Prop where
  reads : ∀ (i : ℕ) lines, traces[i]? = some lines → ∃ rest, f.fetcher.sr[i]? = some rest ∧
    Reads read i lines (f.fetchedFrom i) rest
  queued : ∀ u, f.handedTo u ++ f.insp.queue u = f.arrivedAt cfg u
  flags : ∀ i : ℕ, f.insp.eof[i]? = some true ↔ eofInput ∈ f.fetchedFrom i
  ended : ∀ i : ℕ, f.insp.eof[i]? = some true → f.fetcher.sr[i]? = some []

/-- What is left of the trace of processor `i` holds no further input. -/
def AtEnd (read : Reader) (f : Feed) (i : ℕ) : Prop :=
  ∃ lines rest, f.fetcher.sr[i]? = some lines ∧ read i lines = .ok (some eofInput, rest)

/-- In no round of a step is a processor other than the first asked for at the end of its trace. -/
def NoOtherEnds (cfg : Config) (read : Reader) (f : Feed) : FeedEvent → Prop
  | .step => Along (request cfg read) (fun f i => Asks cfg f i → AtEnd read f i → i = 0) f.tick
      (rounds cfg)
  | .getReq .. => True

/-- The end of the trace of another processor than the first was fetched. -/
def OtherEnded (f : Feed) : Prop := ∃ i, i ≠ 0 ∧ eofInput ∈ f.fetchedFrom i

variable {cfg : Config} {read : Reader} {traces : List (List Line)} {f f' : Feed}

theorem fetchedFrom_append (f : Feed) (insp : InsPartition) (fetcher : TraceFetcher) (i j : ℕ)
    (input : TraceInput) :
    fetchedFrom { f with insp, fetcher, fetched := f.fetched ++ [(i, input)] } j =
      f.fetchedFrom j ++ if j = i then [input] else [] := by
  simp only [fetchedFrom, List.filter_append, List.map_append]
  congr 1
  by_cases h : j = i
  · simp [h]
  · simp [h, Ne.symm h]

theorem recvFunctionalReq_eq_ok {fetcher fetcher' : TraceFetcher} {i : ℕ} {input : TraceInput} :
    TraceFetcher.recvFunctionalReq read fetcher i = .ok (input, fetcher') ↔
      ∃ lines rest, fetcher.sr[i]? = some lines ∧ read i lines = .ok (some input, rest) ∧
        fetcher' = { sr := fetcher.sr.set i rest } := by
  constructor
  · intro h
    obtain ⟨lines, hlines, h⟩ := Outcome.bind_eq_ok.mp h
    obtain ⟨⟨answer, rest⟩, hread, h⟩ := Outcome.bind_eq_ok.mp h
    cases answer with
    | none => cases h
    | some input =>
      cases h
      exact ⟨lines, rest, listAt_natCast.mp hlines, hread, rfl⟩
  · rintro ⟨lines, rest, hlines, hread, rfl⟩
    have hat : listAt fetcher.sr (i : Int) = .ok lines := listAt_natCast.mpr hlines
    simp [TraceFetcher.recvFunctionalReq, hat, hread]
    rfl

/-- An input of a trace has a queue, and the end of a trace sets the flag of the first
processor. -/
theorem recv_eof (hsound : read.Sound) {i : ℕ} {lines rest : List Line} {input : TraceInput}
    {p p' : InsPartition} (hread : read i lines = .ok (some input, rest))
    (h : InsPartition.recvFunctionalResp cfg p input = .ok p') :
    p'.eof = if input = eofInput then p.eof.set 0 true else p.eof := by
  rcases hsound _ _ _ _ hread with hof | ⟨rfl, -⟩
  · rw [if_neg hof.ne_eof]
    obtain ⟨u, hu⟩ : ∃ u, InsPartition.destination cfg input = some u := by
      cases input with
      | instruction t =>
        simp only [InsPartition.destination, if_neg hof.1]
        split_ifs <;> exact ⟨_, rfl⟩
      | pcTrace t =>
        simp only [InsPartition.destination]
        split_ifs <;> exact ⟨_, rfl⟩
      | function t => exact ⟨_, rfl⟩
      | block t => exact ⟨_, rfl⟩
    unfold InsPartition.recvFunctionalResp at h
    rw [hu] at h
    obtain ⟨q, -, h⟩ := Outcome.bind_eq_ok.mp h
    cases h
    exact InsPartition.setQueue_eof ..
  · obtain ⟨_, -, h⟩ := Outcome.bind_eq_ok.mp h
    cases h
    rfl

/-- What every run keeps of the traces and the flags: the flag of the first processor tells that some
trace has ended, and no other flag is ever set. -/
structure Fetches (read : Reader) (traces : List (List Line)) (f : Feed) : Prop where
  reads : ∀ (i : ℕ) lines, traces[i]? = some lines → ∃ rest, f.fetcher.sr[i]? = some rest ∧
    Reads read i lines (f.fetchedFrom i) rest
  known : ∀ (i : ℕ) lines, f.fetcher.sr[i]? = some lines → ∃ lines, traces[i]? = some lines
  asked : ∀ i, f.fetchedFrom i ≠ [] → ∃ lines, traces[i]? = some lines
  first : f.insp.eof[0]? = some true ↔ ∃ i, eofInput ∈ f.fetchedFrom i
  other : ∀ i : ℕ, i ≠ 0 → f.insp.eof[i]? ≠ some true

/-- One round reads one more input of one trace. -/
theorem request_fetches (hsound : read.Sound) {i : ℕ} (hf : Fetches read traces f)
    (h : request cfg read f i = .ok f') : Fetches read traces f' := by
  obtain ⟨-, rfl⟩ | ⟨hasks, input, insp, fetcher, hreq, hinsp, rfl⟩ := request_eq_ok h
  · exact hf
  obtain ⟨mid, rest, hmid, hread, rfl⟩ := recvFunctionalReq_eq_ok.mp hreq
  have hlen : i < f.fetcher.sr.length := (List.getElem?_eq_some_iff.mp hmid).1
  have heof := recv_eof hsound hread hinsp
  refine ⟨fun j lines hj => ?_, fun j lines hj => ?_, fun j hj => ?_, ?_, fun j hj => ?_⟩
  · obtain ⟨rest', hrest', hreads⟩ := hf.reads j lines hj
    rw [fetchedFrom_append]
    by_cases hji : j = i
    · subst hji
      cases hmid.symm.trans hrest'
      exact ⟨rest, List.getElem?_set_self hlen, by simpa using hreads.snoc hread⟩
    · refine ⟨rest', ?_, by simpa [hji] using hreads⟩
      exact (List.getElem?_set_ne (Ne.symm hji)).trans hrest'
  · by_cases hji : j = i
    · exact hf.known j mid (hji ▸ hmid)
    · exact hf.known j lines ((List.getElem?_set_ne (Ne.symm hji)).symm.trans hj)
  · by_cases hji : j = i
    · exact hf.known j mid (hji ▸ hmid)
    · rw [fetchedFrom_append, if_neg hji, List.append_nil] at hj
      exact hf.asked j hj
  · simp only [fetchedFrom_append, heof]
    by_cases hinput : input = eofInput
    · have hpos : 0 < f.insp.eof.length := by
        have := (List.getElem?_eq_some_iff.mp hasks.1).1
        omega
      rw [if_pos hinput, List.getElem?_set_self hpos]
      exact ⟨fun _ => ⟨i, by simp [hinput]⟩, fun _ => rfl⟩
    · rw [if_neg hinput, hf.first]
      refine exists_congr fun j => ?_
      rw [List.mem_append]
      split_ifs <;> simp [Ne.symm hinput]
  · rw [heof]
    split_ifs
    · rw [List.getElem?_set_ne (Ne.symm hj)]
      exact hf.other j hj
    · exact hf.other j hj

/-- A round fetches the end of another trace than the first exactly when it asks there. -/
theorem request_otherEnded {i : ℕ} (h : request cfg read f i = .ok f') :
    OtherEnded f' ↔ OtherEnded f ∨ ¬ (Asks cfg f i → AtEnd read f i → i = 0) := by
  obtain ⟨hasks, rfl⟩ | ⟨hasks, input, insp, fetcher, hreq, -, rfl⟩ := request_eq_ok h
  · simp [hasks]
  obtain ⟨lines, rest, hlines, hread, -⟩ := recvFunctionalReq_eq_ok.mp hreq
  have hend : AtEnd read f i ↔ input = eofInput := by
    constructor
    · rintro ⟨lines', rest', hlines', hread'⟩
      cases hlines.symm.trans hlines'
      cases hread.symm.trans hread'
      rfl
    · rintro rfl
      exact ⟨lines, rest, hlines, hread⟩
  have hnew : OtherEnded { f with insp, fetcher, fetched := f.fetched ++ [(i, input)] } ↔
      ∃ j, j ≠ 0 ∧ (eofInput ∈ f.fetchedFrom j ∨ j = i ∧ input = eofInput) := by
    refine exists_congr fun j => and_congr_right fun _ => ?_
    rw [fetchedFrom_append, List.mem_append]
    split_ifs with hj <;> simp [hj, eq_comm]
  rw [hnew, hend]
  constructor
  · rintro ⟨j, hj, hmem | ⟨rfl, heof⟩⟩
    · exact .inl ⟨j, hj, hmem⟩
    · exact .inr fun hfirst => hj (hfirst hasks heof)
  · rintro (⟨j, hj, hmem⟩ | hbad)
    · exact ⟨j, hj, .inl hmem⟩
    · push Not at hbad
      exact ⟨i, hbad.2.2, .inr ⟨rfl, hbad.2.1⟩⟩

theorem step_fetches (hsound : read.Sound) {e : FeedEvent} (hf : Fetches read traces f)
    (h : step cfg read f e = .ok f') : Fetches read traces f' := by
  cases e with
  | step =>
    have htick : Fetches read traces f.tick := ⟨hf.reads, hf.known, hf.asked, hf.first, hf.other⟩
    exact exec_invariant (fun _ _ _ hf h => request_fetches hsound hf h) htick h
  | getReq u pc =>
    obtain ⟨⟨answer, insp⟩, hreq, h⟩ := Outcome.bind_eq_ok.mp h
    cases h
    have heof : insp.eof = f.insp.eof := (InsPartition.getReq_queue hreq).2.1
    refine ⟨hf.reads, hf.known, hf.asked, ?_, ?_⟩
    · rw [heof]
      exact hf.first
    · rw [heof]
      exact hf.other

/-- A step fetches the end of another trace than the first exactly when it fails the condition. -/
theorem step_otherEnded {e : FeedEvent} (h : step cfg read f e = .ok f') :
    OtherEnded f' ↔ OtherEnded f ∨ ¬ NoOtherEnds cfg read f e := by
  cases e with
  | step => exact exec_flag (fun _ _ _ h => request_otherEnded h) h
  | getReq u pc =>
    obtain ⟨⟨answer, insp⟩, -, h⟩ := Outcome.bind_eq_ok.mp h
    cases h
    simp [NoOtherEnds, OtherEnded, fetchedFrom]

theorem init_fetches (cfg : Config) (read : Reader) (traces : List (List Line)) :
    Fetches read traces (init cfg traces) := by
  have hflags : ∀ i : ℕ, (List.replicate cfg.n false)[i]? ≠ some true := by
    intro i
    rw [List.getElem?_replicate]
    split_ifs <;> simp
  refine ⟨fun i lines hi => ⟨lines, hi, .nil⟩, fun i lines hi => ⟨lines, hi⟩,
    fun i hi => absurd rfl hi, ?_, fun i _ => hflags i⟩
  constructor
  · exact fun h => absurd h (hflags 0)
  · rintro ⟨i, hi⟩
    cases hi

/-- As long as only the first trace ends, the flags tell which traces have ended. -/
theorem Fetches.flags (hf : Fetches read traces f) (hother : ¬ OtherEnded f) (i : ℕ) :
    f.insp.eof[i]? = some true ↔ eofInput ∈ f.fetchedFrom i := by
  have hnot : ∀ j, j ≠ 0 → eofInput ∉ f.fetchedFrom j := fun j hj hmem => hother ⟨j, hj, hmem⟩
  by_cases hi : i = 0
  · subst hi
    rw [hf.first]
    constructor
    · rintro ⟨j, hj⟩
      by_cases h0 : j = 0
      · exact h0 ▸ hj
      · exact absurd hj (hnot j h0)
    · exact fun h => ⟨0, h⟩
  · exact iff_of_false (hf.other i hi) (hnot i hi)

/-- A run whose steps ask no other processor at its end has not fetched the end of its trace. -/
theorem not_otherEnded_iff (cfg : Config) {read : Reader} {traces : List (List Line)}
    {events : List FeedEvent} {f : Feed}
    (h : exec (step cfg read) (init cfg traces) events = .ok f) :
    ¬ OtherEnded f ↔ Along (step cfg read) (NoOtherEnds cfg read) (init cfg traces) events := by
  have hflag := exec_flag (fun _ _ _ h => step_otherEnded h) h
  have hinit : ¬ OtherEnded (init cfg traces) := by
    rintro ⟨i, -, hi⟩
    cases hi
  rw [hflag]
  tauto

/-- **Delivery of the traces**: a run delivers every trace exactly when in none of its steps a
processor other than the first is asked for an input at the end of its trace. -/
theorem delivers_iff (cfg : Config) (fmt : LineFormat) (traces : List (List Line))
    (events : List FeedEvent) (f : Feed)
    (h : exec (step cfg (reader cfg fmt)) (init cfg traces) events = .ok f) :
    Delivers cfg (reader cfg fmt) traces f ↔
      Along (step cfg (reader cfg fmt)) (NoOtherEnds cfg (reader cfg fmt)) (init cfg traces)
        events := by
  have hsound := sound_reader cfg fmt
  have hf : Fetches (reader cfg fmt) traces f :=
    exec_invariant (fun _ _ _ hf h => step_fetches hsound hf h) (init_fetches cfg _ traces) h
  have hsteady : Steady cfg f :=
    exec_invariant (fun _ _ _ hf h => step_steady hf h) (init_steady cfg traces) h
  rw [← not_otherEnded_iff cfg h]
  constructor
  · rintro hd ⟨i, hi, hmem⟩
    exact hf.other i hi ((hd.flags i).mpr hmem)
  · intro hno
    refine ⟨hf.reads, hsteady.order, hf.flags hno, fun i hi => ?_⟩
    have hmem := (hf.flags hno i).mp hi
    obtain ⟨lines, hlines⟩ := hf.asked i (List.ne_nil_of_mem hmem)
    obtain ⟨rest, hrest, hreads⟩ := hf.reads i lines hlines
    rw [hrest, hreads.ended hsound (reader_nil cfg fmt i) hmem]

/-- No text has a meaning. The readers of PC traces do not ask. -/
def noFormat : LineFormat where
  insLine _ := .ok none
  functionHead _ := .error .format
  functionField _ _ := .error .format

/-- Two traces of two lines each, all of which are delivered in two steps. -/
theorem delivers_iff_two_traces : ∃ f,
    exec (step { n := 2 } (reader { n := 2 } noFormat)) (init { n := 2 }
      [[['1', '0', ' ', '2', '0'], ['1', '1', ' ', '2', '1']],
        [['1', '2', ' ', '2', '2'], ['1', '3', ' ', '2', '3']]]) [.step, .step] = .ok f ∧
      f.fetched.length = 4 ∧
      Delivers { n := 2 } (reader { n := 2 } noFormat)
        [[['1', '0', ' ', '2', '0'], ['1', '1', ' ', '2', '1']],
          [['1', '2', ' ', '2', '2'], ['1', '3', ' ', '2', '3']]] f := by
  obtain ⟨f, hf, hfetched⟩ := Outcome.exists_of_map_eq_ok
    (f := fun f : Feed => (f.fetched.length, decide (eofInput ∈ f.fetched.map Prod.snd)))
    (b := (4, false))
    (x := exec (step { n := 2 } (reader { n := 2 } noFormat)) (init { n := 2 }
      [[['1', '0', ' ', '2', '0'], ['1', '1', ' ', '2', '1']],
        [['1', '2', ' ', '2', '2'], ['1', '3', ' ', '2', '3']]]) [.step, .step])
    (by decide +kernel)
  obtain ⟨hlength, hends⟩ := Prod.mk.inj hfetched
  have hother : ¬ OtherEnded f := by
    rintro ⟨i, -, hi⟩
    obtain ⟨e, he, heq⟩ := List.mem_map.mp hi
    exact of_decide_eq_false hends (List.mem_map.mpr ⟨e, List.mem_of_mem_filter he, heq⟩)
  exact ⟨f, hf, hlength,
    (delivers_iff _ _ _ _ f hf).mpr ((not_otherEnded_iff { n := 2 } hf).mp hother)⟩

/-- The empty trace of the second processor ends in the first step. The flag of the first processor
is set, and the second line of its trace is left for ever. -/
theorem not_delivers_two_traces :
    ∃ f, exec (step { n := 2 } (reader { n := 2 } noFormat)) (init { n := 2 }
        [[['1', '0', ' ', '2', '0'], ['1', '1', ' ', '2', '1']], []]) [.step, .step] = .ok f ∧
      f.insp.eof = [true, false] ∧ f.fetcher.sr = [[['1', '1', ' ', '2', '1']], []] ∧
      ¬ Delivers { n := 2 } (reader { n := 2 } noFormat)
        [[['1', '0', ' ', '2', '0'], ['1', '1', ' ', '2', '1']], []] f := by
  refine ⟨{
    insp := {
      InsPartition.init { n := 2 } with
      allIns := [[.pcTrace { pc := 16, combination := 32, id := 0 }], []]
      eof := [true, false], cycle := 2 }
    fetcher := { sr := [[['1', '1', ' ', '2', '1']], []] }
    steps := 2
    fetched := [(0, .pcTrace { pc := 16, combination := 32, id := 0 }), (1, eofInput),
      (1, eofInput)] },
    by decide +kernel, rfl, rfl, fun hd => ?_⟩
  have hended := hd.ended 0 rfl
  cases hended

end PIMSim.Feed
