import ManeuverRanking.Proofs.Candidate.Members
import ManeuverRanking.Proofs.Sorting.Mapping

/-!
Rankings with fewer candidates. A candidate is measured and scored alone, so leaving some out keeps
the metrics and scores of the others, and it keeps their order where all totals are defined.
Trajectories that end before the horizon are no candidates at all.
-/

namespace ManeuverRanking

theorem filter_eq_of_sublist {β : Type} {key : β → Nat} {kept whole : List β}
    (inside : kept.Sublist whole) (distinct : (whole.map key).Nodup) :
    (whole.filter fun value => (kept.map key).contains (key value)) = kept := by
  induction inside with
  | slnil => rfl
  | @cons kept rest value inside ih =>
      rw [List.map_cons, List.nodup_cons] at distinct
      have absent : key value ∉ kept.map key := fun member =>
        distinct.1 ((inside.map key).subset member)
      rw [List.filter_cons_of_neg (by simpa using absent)]
      exact ih distinct.2
  | @cons_cons kept rest value inside ih =>
      rw [List.map_cons, List.nodup_cons] at distinct
      rw [List.filter_cons_of_pos (by simp), List.cons.injEq]
      refine ⟨rfl, (List.filter_congr fun other member => ?_).trans (ih distinct.2)⟩
      have apart : key other ≠ key value := fun same =>
        distinct.1 (same ▸ List.mem_map_of_mem member)
      simp [apart]

theorem zipIdx_map_eq {β γ : Type} {key : β → Nat} (label : β → γ) {entries : List β}
    (distinct : (entries.map key).Nodup) : (entries.map label).zipIdx =
      entries.map fun entry => (label entry, (entries.map key).idxOf (key entry)) := by
  apply List.ext_getElem
  · simp
  · intro position inside inside'
    simp at inside
    have found := distinct.idxOf_getElem position (by simpa using inside)
    simp at found
    simp [found]

variable {α : Type}

def Candidate.renumber (kept : List Nat) (candidate : Candidate α) : Candidate α :=
  { candidate with generation := kept.idxOf candidate.generation }

def ScoredCandidate.renumber (kept : List Nat) (scored : ScoredCandidate α) : ScoredCandidate α :=
  { scored with candidate := scored.candidate.renumber kept }

namespace Builder

theorem candidates_narrow {material material' : Material α}
    (objects : material'.objects = material.objects)
    {resampled resampled' : List (PlanPoint α)} {sampled sampled' : List (List (PlanPoint α))}
    (fewer : (motions material' resampled' sampled').Sublist (motions material resampled sampled)) :
    ∃ kept : List Nat, kept.Pairwise (· < ·) ∧
      (∀ generation ∈ kept, generation < (candidates material resampled sampled).length) ∧
      candidates material' resampled' sampled' = ((candidates material resampled sampled).filter
        fun candidate => kept.contains candidate.generation).map (Candidate.renumber kept) := by
  -- Each motion that is kept comes with its old number.
  have numbered : (motions material resampled sampled).zipIdx.map Prod.fst =
      motions material resampled sampled := List.zipIdx_map_fst 0 _
  rw [← numbered, List.sublist_map_iff] at fewer
  obtain ⟨entries, inside, motions'⟩ := fewer
  have numbers := inside.map Prod.snd
  rw [List.zipIdx_map_snd, ← List.range_eq_range'] at numbers
  have increasing : (entries.map Prod.snd).Pairwise (· < ·) := List.pairwise_lt_range.sublist numbers
  have distinct : ((motions material resampled sampled).zipIdx.map Prod.snd).Nodup := by
    rw [List.zipIdx_map_snd, ← List.range_eq_range']
    exact List.nodup_range
  refine ⟨entries.map Prod.snd, increasing, ?_, ?_⟩
  · intro generation member
    have bound := List.mem_range.mp (numbers.subset member)
    rwa [candidates_eq, List.length_map, List.length_zipIdx]
  · rw [candidates_eq, candidates_eq, motions', objects,
      zipIdx_map_eq Prod.fst (increasing.imp Nat.ne_of_lt), List.filter_map, List.map_map,
      List.map_map]
    have selected := filter_eq_of_sublist inside distinct
    simp only [Function.comp_def]
    rw [selected]
    rfl

theorem motions_sublist {material material' : Material α}
    (driven : material'.driven.toList.Sublist material.driven.toList)
    (resampled : List (PlanPoint α)) {sampled sampled' : List (List (PlanPoint α))}
    (fewer : sampled'.Sublist sampled) :
    (motions material' resampled sampled').Sublist (motions material resampled sampled) :=
  (driven.map _).append ((fewer.map _).cons_cons _)

variable [Scalar α]

theorem scoreCandidate_renumber (builder : Builder α) (kept : List Nat)
    (candidate : Candidate α) : builder.scoreCandidate (candidate.renumber kept) =
      (builder.scoreCandidate candidate).map (ScoredCandidate.renumber kept) := by
  have same : builder.extractor.extract (candidate.renumber kept) =
      builder.extractor.extract candidate := rfl
  unfold scoreCandidate
  rw [same]
  cases builder.extractor.extract candidate with
  | error fault => rfl
  | ok metrics =>
      simp only [bind, Except.bind]
      cases builder.scorer.score metrics <;> rfl

theorem scoreAll_narrow {builder : Builder α} {candidates : List (Candidate α)}
    {scored : List (ScoredCandidate α)} (done : builder.scoreAll candidates = .ok scored)
    (kept : List Nat) :
    builder.scoreAll ((candidates.filter fun candidate =>
      kept.contains candidate.generation).map (Candidate.renumber kept)) =
        .ok ((scored.filter fun scored =>
          kept.contains scored.candidate.generation).map (ScoredCandidate.renumber kept)) := by
  rw [scoreAll_eq_mapM] at done ⊢
  rw [mapM_map_comm fun candidate _ => builder.scoreCandidate_renumber kept candidate,
    mapM_filter (fun candidate result scored => ?_) done]
  · rfl
  · rw [candidate_of_scored scored]

/-- Builders that differ at most in what they sample, in whether the executed motion competes, and
in how many candidates they score at a time. -/
structure Akin (builder other : Builder α) : Prop where
  horizon : other.horizon = builder.horizon
  extractor : other.extractor = builder.extractor
  scorer : other.scorer = builder.scorer
  lattice : other.lattice = builder.lattice
  sampled : other.sampler.isSome = builder.sampler.isSome

variable {builder other : Builder α}

theorem Akin.scoreCandidate (akin : builder.Akin other) :
    other.scoreCandidate = builder.scoreCandidate := by
  unfold Builder.scoreCandidate
  rw [akin.extractor, akin.scorer]

theorem Akin.requestFor (akin : builder.Akin other) (seed : Seed α) :
    other.requestFor seed = builder.requestFor seed := by
  unfold Builder.requestFor
  rw [akin.lattice]

theorem Akin.request?_cases (akin : builder.Akin other) (seed : Seed α) :
    (∃ fault, builder.request? seed = .error fault ∧ other.request? seed = .error fault) ∨
    (builder.request? seed = .ok none ∧ other.request? seed = .ok none) ∨
    ∃ sampler sampler' request, builder.request? seed = .ok (some (sampler, request)) ∧
      other.request? seed = .ok (some (sampler', request)) := by
  have sampled := akin.sampled
  unfold request?
  rw [akin.requestFor]
  cases own : builder.sampler with
  | none =>
      rw [own, Option.isSome_none, Option.isSome_eq_false_iff, Option.isNone_iff_eq_none] at sampled
      rw [sampled]
      exact .inr (.inl ⟨rfl, rfl⟩)
  | some sampler =>
      rw [own, Option.isSome_some] at sampled
      obtain ⟨sampler', own'⟩ := Option.isSome_iff_exists.mp sampled
      rw [own']
      dsimp only
      by_cases short : seed.plan.points.length < 2
      · simp [short]
      · rw [if_neg short, if_neg short]
        cases builder.requestFor seed with
        | error fault => exact .inl ⟨fault, rfl, rfl⟩
        | ok request => exact .inr (.inr ⟨sampler, sampler', request, rfl, rfl⟩)

theorem Akin.gather (akin : builder.Akin other)
    (executed : other.includeExecuted = true → builder.includeExecuted = true)
    {snapshot : Snapshot α} {material : Material α}
    (gathered : builder.gather snapshot = .ok (.ready material)) :
    ∃ material', other.gather snapshot = .ok (.ready material') ∧
      material'.seed = material.seed ∧ material'.objects = material.objects ∧
      material'.driven.toList.Sublist material.driven.toList := by
  obtain ⟨seeded, objects, driven, drove⟩ := (builder.gather_eq_ready_iff ..).mp gathered
  rw [← akin.horizon] at objects drove
  cases included : other.includeExecuted with
  | false =>
      refine ⟨{ material with driven := none },
        (other.gather_eq_ready_iff ..).mpr ⟨seeded, objects, included.symm, nofun⟩, rfl, rfl, ?_⟩
      exact List.nil_sublist _
  | true =>
      rw [executed included, ← included] at driven
      exact ⟨material, (other.gather_eq_ready_iff ..).mpr ⟨seeded, objects, driven, drove⟩, rfl,
        rfl, List.Sublist.refl _⟩

/-- Another builder ranks some of the candidates of a builder: at the requests made, its sampler
offers some of the trajectories, in their order. -/
structure Narrows (builder other : Builder α) (requests : List (SamplerRequest α)) : Prop
    extends builder.Akin other where
  executed : other.includeExecuted = true → builder.includeExecuted = true
  fewer : ∀ sampler, builder.sampler = some sampler → ∀ sampler', other.sampler = some sampler' →
    ∀ request ∈ requests, ∀ offered, sampler request = .ok offered →
      ∀ offered', sampler' request = .ok offered' → offered'.Sublist offered

def SamplerFails (other : Builder α) (requests : List (SamplerRequest α))
    (outcome : Except (Fault α) (Outcome Shortage (Ranking α))) : Prop :=
  ∃ sampler', other.sampler = some sampler' ∧ ∃ request ∈ requests, ∃ fault,
    sampler' request = .error fault ∧ outcome = .error fault

theorem Narrows.offers {seed : Seed α} (narrows : builder.Narrows other (builder.asked seed))
    {offered : List (List (PlanPoint α))} (answered : builder.offers seed = .ok offered) :
    (∃ offered', other.offers seed = .ok offered' ∧ offered'.Sublist offered) ∨
      ∃ sampler', other.sampler = some sampler' ∧ ∃ request ∈ builder.asked seed, ∃ fault,
        sampler' request = .error fault ∧ other.offers seed = .error fault := by
  simp only [Builder.offers, bind_eq_ok_iff] at answered
  obtain ⟨ask, found, answered⟩ := answered
  rcases narrows.toAkin.request?_cases seed with
    ⟨fault, failed, -⟩ | ⟨none, none'⟩ | ⟨sampler, sampler', request, some, some'⟩
  · rw [failed] at found
    cases found
  · rw [none] at found
    cases found
    cases answered
    refine .inl ⟨[], ?_, List.Sublist.refl _⟩
    rw [Builder.offers, none']
    rfl
  · rw [some] at found
    cases found
    have asks : request ∈ builder.asked seed := (builder.mem_asked_iff ..).mpr ⟨sampler, some⟩
    obtain ⟨own, -⟩ := (builder.request?_eq_some_iff ..).mp some
    obtain ⟨own', -⟩ := (other.request?_eq_some_iff ..).mp some'
    have offers := offers_of_request? some'
    cases told : sampler' request with
    | error fault => exact .inr ⟨sampler', own', request, asks, fault, told, offers.trans told⟩
    | ok offered' =>
        refine .inl ⟨offered', offers.trans told, ?_⟩
        exact narrows.fewer sampler own sampler' own' request asks offered answered offered' told

theorem Narrows.build {snapshot : Snapshot α}
    (narrows : builder.Narrows other (builder.build snapshot).requests) {ranking : Ranking α}
    (ready : (builder.build snapshot).outcome = .ok (.ready ranking)) :
    (∃ (scored : List (ScoredCandidate α)) (kept : List Nat),
      ranking = .ofScored snapshot.clock scored ∧ kept.Pairwise (· < ·) ∧
      (∀ generation ∈ kept, generation < scored.length) ∧
      (other.build snapshot).outcome = .ok (.ready (.ofScored snapshot.clock
        ((scored.filter fun scored => kept.contains scored.candidate.generation).map
          (ScoredCandidate.renumber kept))))) ∨
      other.SamplerFails (builder.build snapshot).requests (other.build snapshot).outcome := by
  obtain ⟨material, resampled, offered, gathered, walked, answered, ranked⟩ :=
    (builder.build_eq_ready_iff ..).mp ready
  rw [requests_of_gather gathered walked] at narrows ⊢
  obtain ⟨material', gathered', seed, objects, driven⟩ :=
    narrows.toAkin.gather narrows.executed gathered
  have walked' : material'.seed.plan.resample material'.seed.odometry other.horizon =
      .ok resampled := by
    rw [seed, narrows.horizon]
    exact walked
  rcases narrows.offers answered with ⟨offered', answered', fewer⟩ | failure
  · simp only [rank, bind_eq_ok_iff, pure, Except.pure, Except.ok.injEq,
      Outcome.ready.injEq] at ranked
    obtain ⟨scored, done, rfl⟩ := ranked
    have shorter : (other.usable offered').Sublist (builder.usable offered) := by
      rw [usable, usable, narrows.horizon]
      exact (fewer.filter _).map _
    obtain ⟨kept, increasing, inside, listed⟩ :=
      candidates_narrow objects (motions_sublist driven resampled shorter)
    have done' := scoreAll_narrow done kept
    rw [scoreAll_eq_mapM, ← narrows.toAkin.scoreCandidate, ← scoreAll_eq_mapM, ← listed] at done'
    refine .inl ⟨scored, kept, rfl, increasing, ?_, ?_⟩
    · rwa [← scoreAll_candidates done, List.length_map] at inside
    · rw [build_eq_ready_iff]
      rw [← seed] at answered'
      refine ⟨material', resampled, offered', gathered', walked', answered', ?_⟩
      rw [rank, done']
      rfl
  · obtain ⟨sampler', own', request, asks, fault, told, failed⟩ := failure
    refine .inr ⟨sampler', own', request, asks, fault, told, ?_⟩
    rw [build_outcome, gathered']
    change (other.rankMaterial snapshot.clock material').outcome = _
    rw [rankMaterial_outcome, walked', seed, failed]
    rfl

/-- Another builder samples the same trajectories but for such as end before the horizon. -/
structure DiffersShort (builder other : Builder α) (requests : List (SamplerRequest α)) : Prop
    extends builder.Akin other where
  executed : other.includeExecuted = builder.includeExecuted
  long : ∀ sampler, builder.sampler = some sampler → ∀ sampler', other.sampler = some sampler' →
    ∀ request ∈ requests,
      (sampler' request).map (List.filter fun points => builder.horizon.steps ≤ points.length) =
        (sampler request).map (List.filter fun points => builder.horizon.steps ≤ points.length)

theorem Akin.rank (akin : builder.Akin other) {offered offered' : List (List (PlanPoint α))}
    (same : other.usable offered' = builder.usable offered) (clock : Int) (material : Material α)
    (resampled : List (PlanPoint α)) : other.rank clock material resampled offered' =
      builder.rank clock material resampled offered := by
  unfold Builder.rank
  rw [same, scoreAll_eq_mapM, scoreAll_eq_mapM, akin.scoreCandidate]

theorem DiffersShort.build {snapshot : Snapshot α}
    (differs : builder.DiffersShort other (builder.build snapshot).requests) :
    (other.build snapshot).outcome = (builder.build snapshot).outcome := by
  have akin := differs.toAkin
  have gather : other.gather snapshot = builder.gather snapshot := by
    unfold Builder.gather
    rw [akin.horizon, differs.executed]
  rw [build_outcome, build_outcome, gather]
  apply bind_congr_of_ok
  intro outcome gathered
  cases outcome with
  | notReady cause => rfl
  | ready material =>
      change (other.rankMaterial _ material).outcome = (builder.rankMaterial _ material).outcome
      rw [rankMaterial_outcome, rankMaterial_outcome, akin.horizon]
      apply bind_congr_of_ok
      intro resampled walked
      rw [requests_of_gather gathered walked] at differs
      rcases akin.request?_cases material.seed with
        ⟨fault, failed, failed'⟩ | ⟨none, none'⟩ | ⟨sampler, sampler', request, some, some'⟩
      · rw [Builder.offers, Builder.offers, failed, failed']
        rfl
      · rw [Builder.offers, Builder.offers, none, none']
        exact akin.rank rfl ..
      · have asks := (builder.mem_asked_iff ..).mpr ⟨sampler, some⟩
        obtain ⟨own, -⟩ := (builder.request?_eq_some_iff ..).mp some
        obtain ⟨own', -⟩ := (other.request?_eq_some_iff ..).mp some'
        -- Short trajectories are filtered out, so only the long ones count, which both samplers
        -- share.
        have same := differs.long sampler own sampler' own' request asks
        rw [offers_of_request? some, offers_of_request? some']
        apply bind_congr_of_map same
        intro offered offered' alike
        apply akin.rank
        rw [usable, usable, akin.horizon, alike]

end Builder

/-- What is left of a ranking where candidates are absent: the others with their metrics and scores,
numbered anew, and in their order where all totals are defined. -/
structure Ranking.Leaves [Arithmetic α] (ranking narrowed : Ranking α) (kept : List Nat) : Prop where
  clock : narrowed.clock = ranking.clock
  increasing : kept.Pairwise (· < ·)
  inside : ∀ generation ∈ kept, generation < ranking.ranked.length
  members : narrowed.ranked.Perm ((ranking.ranked.filter fun scored =>
    kept.contains scored.candidate.generation).map (ScoredCandidate.renumber kept))
  ordered : (∀ scored ∈ ranking.ranked, isUndefined scored.total = false) →
    narrowed.ranked = (ranking.ranked.filter fun scored =>
      kept.contains scored.candidate.generation).map (ScoredCandidate.renumber kept)

theorem Ranking.leaves_ofScored [Arithmetic α] [Comparable α] (clock : Int)
    {scored : List (ScoredCandidate α)} {kept : List Nat} (increasing : kept.Pairwise (· < ·))
    (inside : ∀ generation ∈ kept, generation < scored.length) :
    (Ranking.ofScored clock scored).Leaves (.ofScored clock ((scored.filter fun scored =>
      kept.contains scored.candidate.generation).map (ScoredCandidate.renumber kept))) kept := by
  have whole := sortDescending_perm ScoredCandidate.total scored
  constructor
  · rfl
  · exact increasing
  · intro generation member
    exact whole.length_eq ▸ inside generation member
  · exact (sortDescending_perm _ _).trans ((whole.symm.filter _).map _)
  · intro defined
    have defined' : ∀ candidate ∈ scored, isUndefined candidate.total = false :=
      fun candidate member => defined candidate (whole.mem_iff.mpr member)
    have total : ScoredCandidate.total ∘ ScoredCandidate.renumber kept =
      (ScoredCandidate.total : ScoredCandidate α → α) := rfl
    simp only [ofScored, sortDescending_map, total]
    rw [sortDescending_filter _ _ defined']

namespace Builder

/-- A build that differs only in leaving out the executed motion or some of the sampled trajectories
ranks the other candidates as before, unless its sampler fails. Trajectories that end before the
horizon make no difference. -/
theorem build_alternatives [Scalar α] [Comparable α] (builder : Builder α) (snapshot : Snapshot α) :
    let report := builder.build snapshot
    (∀ other ranking, builder.Narrows other report.requests →
      report.outcome = .ok (.ready ranking) →
      (∃ narrowed kept, (other.build snapshot).outcome = .ok (.ready narrowed) ∧
        ranking.Leaves narrowed kept) ∨
      other.SamplerFails report.requests (other.build snapshot).outcome) ∧
    ∀ other, builder.DiffersShort other report.requests →
      (other.build snapshot).outcome = report.outcome := by
  intro report
  constructor
  · intro other ranking narrows ready
    rcases narrows.build ready with ⟨scored, kept, rfl, increasing, inside, found⟩ | failure
    · exact .inl ⟨_, kept, found, Ranking.leaves_ofScored _ increasing inside⟩
    · exact .inr failure
  · intro other differs
    exact differs.build

theorem rollingDrive_alternatives : ∃ builder snapshot ranking narrowed kept,
    ofRolling detours true = builder ∧
    Snapshot.load recordStamp 0 0 rollingDrive.entries = .ok snapshot ∧
    (builder.build snapshot).outcome = .ok (.ready ranking) ∧ ranking.ranked.length = 4 ∧
    ({ builder with
      sampler := some (Sampler.scripted (detours.drop 2))
      includeExecuted := false }.build snapshot).outcome = .ok (.ready narrowed) ∧
    narrowed.ranked.length = 2 ∧ ranking.Leaves narrowed kept ∧
    ({ builder with sampler := some (Sampler.scripted (detours.eraseIdx 1)) }.build
      snapshot).outcome = .ok (.ready ranking) := by
  obtain ⟨snapshot, loaded, -, -, -, -, seed, seeded, ahead⟩ := rollingDrive_loads
  obtain ⟨ranking, ready⟩ := ofRolling_builds loaded detours true
  obtain ⟨scripted, executed, horizon, -⟩ := ofRolling_fields detours true
  have long : 2 ≤ seed.plan.points.length := by
    simpa using (congrArg List.length ahead).ge
  obtain ⟨narrow, short⟩ := build_alternatives (ofRolling detours true) snapshot
  have narrows : (ofRolling detours true).Narrows
      { ofRolling detours true with
        sampler := some (Sampler.scripted (detours.drop 2))
        includeExecuted := false } ((ofRolling detours true).build snapshot).requests := by
    refine ⟨⟨rfl, rfl, rfl, rfl, by rw [scripted]; rfl⟩, nofun, ?_⟩
    intro sampler own sampler' own' request _ offered answered offered' answered'
    cases scripted.symm.trans own
    cases own'
    cases answered
    cases answered'
    exact List.drop_sublist 2 detours
  have differs : (ofRolling detours true).DiffersShort
      { ofRolling detours true with sampler := some (Sampler.scripted (detours.eraseIdx 1)) }
      ((ofRolling detours true).build snapshot).requests := by
    refine ⟨⟨rfl, rfl, rfl, rfl, by rw [scripted]; rfl⟩, rfl, ?_⟩
    intro sampler own sampler' own' request _
    cases scripted.symm.trans own
    cases own'
    rw [horizon]
    rfl
  rcases narrow _ ranking narrows ready with
    ⟨narrowed, kept, found, leaves⟩ | ⟨sampler', own', request, -, fault, told, -⟩
  · refine ⟨_, snapshot, ranking, narrowed, kept, rfl, loaded, ready, ?_, found, ?_, leaves,
      (short _ differs).trans ready⟩
    · rw [length_of_scripted ready scripted seeded long, executed, usable, horizon]
      rfl
    · rw [length_of_scripted found rfl seeded long, usable, horizon]
      rfl
  · cases own'
    cases told

end Builder

end ManeuverRanking
