import Mathlib.Algebra.Field.Defs
import Mathlib.Algebra.Order.Group.Unbundled.Abs
import Mathlib.Analysis.Real.Sqrt
import Mathlib.Data.Nat.Cast.Defs
import XTunnel.Profiles.Preferences
import XTunnel.StableSort

/-! `CfOptimizer.doOptimizeWorkflow`: two rounds of probes, whose scores are exact numbers, and the
addresses it installs. -/
namespace XTunnel.Service.CfOptimizer

open Profiles (Preferences)

def TOP_N_SELECT : Nat := 3
def REFINE_TOP_N : Nat := 12
def REFINE_SAMPLES : Nat := 3

/-- A candidate address. The stored list separates addresses by commas. -/
structure Ip where
  text : String
  noComma : ',' ∉ text.toList
  deriving DecidableEq

variable {K : Type*} [Field K] [LinearOrder K]

/-- What the probes of a run return, -1 for a failed one, and the texts that depend on the clock or
on the formatting of numbers. -/
structure Env (K : Type*) where
  first : Ip → K
  refine : Ip → Nat → K
  sqrt : K → K
  nowStr : String
  summary : K → K → K → String
  displaySummary : K → String

structure CandidateItem (K : Type*) where
  ip : Ip
  firstLatency : K
  firstSuccess : Bool
  samples : List K
  successCount : Nat
  p50 : K
  p95 : K
  mean : K
  stddev : K
  cv : K
  jitter : K
  lossPct : K
  elasticScore : K

/-- The score of a candidate that no refine probe has reached. -/
def deadScore : K := 99999

def newItem (ip : Ip) : CandidateItem K where
  ip := ip
  firstLatency := 9999
  firstSuccess := false
  samples := [0, 0, 0]
  successCount := 0
  p50 := 0
  p95 := 0
  mean := 0
  stddev := 0
  cv := 0
  jitter := 0
  lossPct := 100
  elasticScore := deadScore

/-- The RFC 3550 loop over neighbouring samples. -/
def curJitter (samples : List K) : K :=
  (samples.zip samples.tail).foldl (fun cur p => cur + (|p.2 - p.1| - cur) / 16) 0

def computeMetricsAndScore (sqrt : K → K) (c : CandidateItem K) : CandidateItem K :=
  let validSamples := c.samples.filter (0 < ·)
  if validSamples.isEmpty then { c with lossPct := 100, elasticScore := deadScore }
  else
    let n := validSamples.length
    let lossPct : K := (3 - n) / 3 * 100
    let validSamples := sortBy id validSamples
    let p50 := validSamples.getD (n / 2) 0
    let p95 := validSamples.getD (n - 1) 0
    let mean := validSamples.sum / n
    let varSum := (validSamples.map fun v => (v - mean) * (v - mean)).sum
    let stddev := sqrt (varSum / n)
    let cv := if 1 / 1000 < mean then stddev / mean else 0
    { c with
      p50 := p50
      p95 := p95
      mean := mean
      stddev := stddev
      cv := cv
      jitter := curJitter validSamples
      lossPct := lossPct
      elasticScore := p50 * (1 + 3 / 2 * cv) + 4 / 5 * (p95 - p50) + 15 * lossPct }

variable (env : Env K)

def probeFirst (c : CandidateItem K) : CandidateItem K :=
  let lat := env.first c.ip
  if 0 < lat then { c with firstLatency := lat, firstSuccess := true }
  else { c with firstLatency := 9999, firstSuccess := false }

def probeRefine (c : CandidateItem K) : CandidateItem K :=
  let samples := (List.range REFINE_SAMPLES).map (env.refine c.ip)
  computeMetricsAndScore env.sqrt
    { c with samples := samples, successCount := samples.countP (0 < ·) }

/-- The pool has each candidate once. -/
def pool (candidates : List Ip) : List Ip :=
  candidates.foldl (fun pool ip => if pool.contains ip then pool else pool ++ [ip]) []

/-- The items by their first latency. -/
def items (candidates : List Ip) : List (CandidateItem K) :=
  sortBy CandidateItem.firstLatency ((pool candidates).map fun ip => probeFirst env (newItem ip))

def validInitial (items : List (CandidateItem K)) : Nat :=
  items.countP fun it => it.firstSuccess && it.firstLatency < 600

/-- `topCandidates` behind the refine probes, still by their first latency. -/
def refined (candidates : List Ip) : List (CandidateItem K) :=
  let items := items env candidates
  (items.take (min (validInitial items) REFINE_TOP_N)).map (probeRefine env)

inductive Status
  | idle
  | running
  | success
  | failed
  deriving DecidableEq

/-- What the workflow hands to the main thread and to the service. -/
inductive Note
  | notifyStatus (status : Status) (message : String)
  | notifyComplete (success : Bool) (topIps summary : String)
  | startService (profileId prefIp : String)

structure State where
  prefs : Preferences
  enable : Bool
  cfOptApplyAll : Bool
  cfOptTopIps : String
  cfOptLastTime : String
  cfOptSummary : String
  currentStatus : Status

/-- The new addresses go to all profiles or to the current one. -/
def applyTopIps (applyAll : Bool) (p : Preferences) (ips : String) : Preferences :=
  if applyAll then p.getProfileIds.elems.foldl (fun p pid => p.setPrefIp pid ips) p
  else if p.getCurrentProfileId = "" then p
  else p.setPrefIp p.getCurrentProfileId ips

/-- The best three by their score. -/
def picked (topCandidates : List (CandidateItem K)) : List (CandidateItem K) :=
  (sortBy CandidateItem.elasticScore topCandidates).take (min topCandidates.length TOP_N_SELECT)

def topIps (picked : List (CandidateItem K)) : String :=
  ",".intercalate (picked.map fun c => c.ip.text)

def doOptimizeWorkflow (candidates : List Ip) (manual : Bool) (s : State) : State × List Note :=
  if validInitial (items env candidates) = 0 then
    ({ s with currentStatus := .failed },
      [.notifyStatus .failed "未测得可用节点，请检查网络", .notifyComplete false "" "所有节点握手超时"])
  else
    match picked (refined env candidates) with
    | [] => (s, []) -- some candidate is valid, so one is picked
    | best :: others =>
      let newTopIps := topIps (best :: others)
      let ipChanged := newTopIps != s.cfOptTopIps
      let display := env.displaySummary best.p50
      ({ s with
          prefs := applyTopIps s.cfOptApplyAll s.prefs newTopIps
          cfOptTopIps := newTopIps
          cfOptLastTime := env.nowStr
          cfOptSummary := env.summary best.p50 best.jitter best.cv
          currentStatus := .success },
        (if s.enable && (ipChanged || manual) then
          [.startService s.prefs.getCurrentProfileId newTopIps]
        else []) ++ [.notifyStatus .success display, .notifyComplete true newTopIps display])

/-- Some refine probe has succeeded. -/
def CandidateItem.alive (c : CandidateItem K) : Bool := c.samples.any (0 < ·)

def Reports (success : Bool) (notes : List Note) : Prop :=
  ∃ ips summary, .notifyComplete success ips summary ∈ notes

/-- A run that reports success has installed the best candidates that are alive; one that finds none
alive reports failure and leaves the profiles. -/
structure InstallsLive (env : Env K) (candidates : List Ip) (s : State) (out : State × List Note) :
    Prop where
  success : Reports true out.2 → ∃ listed : List (CandidateItem K),
    out.1.cfOptTopIps = topIps listed ∧ (listed.map CandidateItem.ip).Nodup ∧
      1 ≤ (refined env candidates).countP CandidateItem.alive ∧
      listed.length = min TOP_N_SELECT ((refined env candidates).countP CandidateItem.alive) ∧
      (∀ c ∈ listed, c ∈ refined env candidates ∧ c.alive = true) ∧
      listed.Pairwise (fun c d => c.elasticScore ≤ d.elasticScore) ∧
      ∀ c ∈ refined env candidates, c.alive = true → c ∉ listed →
        ∀ d ∈ listed, ¬ c.elasticScore < d.elasticScore
  failure : (refined env candidates).countP CandidateItem.alive = 0 →
    Reports false out.2 ∧ ¬ Reports true out.2 ∧ out.1.prefs = s.prefs

/-- No refined candidate is dead, or as many as are picked rank before the first dead one: by a score
below `deadScore`, or by that score and an earlier place. -/
def DeadBehind (refined : List (CandidateItem K)) : Prop :=
  (∀ c ∈ refined, c.alive = true) ∨
    min refined.length TOP_N_SELECT ≤ refined.countP (CandidateItem.elasticScore · < deadScore) +
      ((refined.filter (CandidateItem.elasticScore · = deadScore)).takeWhile
        CandidateItem.alive).length

variable {env} {candidates : List Ip} {manual : Bool} {s : State} {c d : CandidateItem K}

theorem pool_nodup (candidates : List Ip) : (pool candidates).Nodup := by
  suffices h : ∀ acc : List Ip, acc.Nodup →
      (candidates.foldl (fun pool ip => if pool.contains ip then pool else pool ++ [ip]) acc).Nodup
    from h [] List.nodup_nil
  induction candidates with
  | nil => exact fun _ h => h
  | cons ip candidates ih =>
    intro acc h
    refine ih _ ?_
    change (if acc.contains ip then acc else acc ++ [ip]).Nodup
    split
    · exact h
    · rename_i hc
      refine List.nodup_append.mpr ⟨h, List.nodup_singleton ip, ?_⟩
      intro a ha b hb hab
      rw [List.mem_singleton.mp hb] at hab
      subst hab
      exact hc (List.contains_iff_mem.mpr ha)

/-! ### What a probe leaves alone -/

theorem probeFirst_ip (c : CandidateItem K) : (probeFirst env c).ip = c.ip := by
  unfold probeFirst
  dsimp only
  split <;> rfl

theorem computeMetricsAndScore_ip (sqrt : K → K) (c : CandidateItem K) :
    (computeMetricsAndScore sqrt c).ip = c.ip := by
  unfold computeMetricsAndScore
  dsimp only
  split <;> rfl

theorem computeMetricsAndScore_alive (sqrt : K → K) (c : CandidateItem K) :
    (computeMetricsAndScore sqrt c).alive = c.alive := by
  unfold computeMetricsAndScore
  dsimp only
  split <;> rfl

/-- A candidate without a success keeps the score of the dead. -/
theorem computeMetricsAndScore_dead (sqrt : K → K) (h : c.alive = false) :
    (computeMetricsAndScore sqrt c).elasticScore = deadScore := by
  have hnil : (c.samples.filter (0 < ·)).isEmpty = true := by
    rw [List.isEmpty_iff, List.filter_eq_nil_iff]
    exact List.any_eq_false.mp h
  unfold computeMetricsAndScore
  dsimp only
  rw [if_pos hnil]

/-- The picked and the other refined candidates have different addresses. -/
theorem refined_nodup : ((refined env candidates).map CandidateItem.ip).Nodup := by
  have hitems : ((items env candidates).map CandidateItem.ip).Nodup := by
    unfold items
    rw [((sortBy_perm _ _).map CandidateItem.ip).nodup_iff, List.map_map]
    have heq : (CandidateItem.ip ∘ fun ip => probeFirst env (newItem ip)) = id := by
      funext ip
      exact probeFirst_ip _
    rw [heq, List.map_id]
    exact pool_nodup candidates
  have heq : (CandidateItem.ip ∘ probeRefine env) = CandidateItem.ip := by
    funext c
    exact computeMetricsAndScore_ip _ _
  unfold refined
  rw [List.map_map, heq]
  exact hitems.sublist ((List.take_sublist _ _).map _)

theorem alive_of_score (hc : c ∈ refined env candidates) (hs : c.elasticScore ≠ deadScore) :
    c.alive = true := by
  obtain ⟨c, -, rfl⟩ := List.mem_map.mp hc
  cases ha : (probeRefine env c).alive with
  | true => rfl
  | false =>
    refine (hs (computeMetricsAndScore_dead _ ?_)).elim
    exact (computeMetricsAndScore_alive _ _).symm.trans ha

/-- All picked candidates are alive exactly if the dead ones are behind. -/
theorem picked_alive_iff :
    (∀ c ∈ picked (refined env candidates), c.alive = true) ↔ DeadBehind (refined env candidates) :=
  forall_take_sortBy_iff CandidateItem.alive fun _ hc hs => alive_of_score hc hs

/-! ### The stored list -/

theorem picked_perm_mem (hc : c ∈ picked (refined env candidates)) : c ∈ refined env candidates :=
  (sortBy_perm _ _).mem_iff.mp (List.mem_of_mem_take hc)

omit [Field K] in
theorem picked_length (l : List (CandidateItem K)) :
    (picked l).length = min l.length TOP_N_SELECT := by
  rw [picked, List.length_take, (sortBy_perm _ _).length_eq]
  omega

theorem picked_nodup : ((picked (refined env candidates)).map CandidateItem.ip).Nodup := by
  refine List.Nodup.sublist ((List.take_sublist _ _).map _) ?_
  rw [((sortBy_perm _ _).map CandidateItem.ip).nodup_iff]
  exact refined_nodup

omit [Field K] [LinearOrder K] in
/-- The stored text determines the addresses. -/
theorem topIps_inj {xs ys : List (CandidateItem K)} (hx : xs ≠ []) (hy : ys ≠ [])
    (h : topIps xs = topIps ys) : xs.map CandidateItem.ip = ys.map CandidateItem.ip := by
  have hsplit (zs : List (CandidateItem K)) (hz : zs ≠ []) :
      (topIps zs).toList.splitOn ',' = zs.map fun c => c.ip.text.toList := by
    unfold topIps
    rw [String.toList_intercalate, List.map_map]
    refine List.splitOn_intercalate _ ?_ (by simpa using hz)
    intro l hl
    obtain ⟨c, -, rfl⟩ := List.mem_map.mp hl
    exact c.ip.noComma
  have hlists := hsplit xs hx
  rw [h, hsplit ys hy] at hlists
  have hinj : Function.Injective fun ip : Ip => ip.text.toList := by
    rintro ⟨x, hx⟩ ⟨y, hy⟩ he
    obtain rfl := String.toList_injective he
    rfl
  refine List.map_injective_iff.mpr hinj ?_
  rw [List.map_map, List.map_map]
  exact hlists.symm

/-! ### The two ends of the workflow -/

theorem doOptimizeWorkflow_failed (manual : Bool) (s : State)
    (h : validInitial (items env candidates) = 0) :
    Reports false (doOptimizeWorkflow env candidates manual s).2 ∧
      ¬ Reports true (doOptimizeWorkflow env candidates manual s).2 ∧
      (doOptimizeWorkflow env candidates manual s).1.prefs = s.prefs := by
  rw [doOptimizeWorkflow, if_pos h]
  refine ⟨⟨_, _, List.mem_cons_of_mem _ List.mem_cons_self⟩, ?_, rfl⟩
  rintro ⟨ips, summary, hm⟩
  simp at hm

theorem picked_ne_nil (h : validInitial (items env candidates) ≠ 0) :
    picked (refined env candidates) ≠ [] := by
  have hle : validInitial (items env candidates) ≤ (items env candidates).length :=
    List.countP_le_length
  refine List.ne_nil_of_length_pos ?_
  rw [picked_length]
  simp only [refined, List.length_map, List.length_take, TOP_N_SELECT, REFINE_TOP_N]
  omega

theorem doOptimizeWorkflow_success (manual : Bool) (s : State)
    (h : validInitial (items env candidates) ≠ 0) :
    Reports true (doOptimizeWorkflow env candidates manual s).2 ∧
      ¬ Reports false (doOptimizeWorkflow env candidates manual s).2 ∧
      (doOptimizeWorkflow env candidates manual s).1.cfOptTopIps =
        topIps (picked (refined env candidates)) := by
  rw [doOptimizeWorkflow, if_neg h]
  cases hp : picked (refined env candidates) with
  | nil => exact (picked_ne_nil h hp).elim
  | cons best others =>
    refine ⟨⟨_, _, List.mem_append_right _ (List.mem_cons_of_mem _ List.mem_cons_self)⟩, ?_, rfl⟩
    rintro ⟨ips, summary, hm⟩
    rcases List.mem_append.mp hm with hm | hm
    · split at hm
      · simp at hm
      · cases hm
    · simp at hm

theorem countP_alive_picked (h : DeadBehind (refined env candidates)) :
    (picked (refined env candidates)).length =
      min TOP_N_SELECT ((refined env candidates).countP CandidateItem.alive) := by
  have hall := List.countP_eq_length.mpr (picked_alive_iff.mpr h)
  have hsub := ((List.take_sublist (min (refined env candidates).length TOP_N_SELECT)
    (sortBy CandidateItem.elasticScore (refined env candidates))).countP_le
    (p := CandidateItem.alive))
  have hperm := (sortBy_perm CandidateItem.elasticScore (refined env candidates)).countP_eq
    CandidateItem.alive
  have hle : (refined env candidates).countP CandidateItem.alive ≤ (refined env candidates).length :=
    List.countP_le_length
  have hlen := picked_length (refined env candidates)
  unfold picked at hall hlen ⊢
  omega

/-- The workflow installs only live candidates exactly if the dead ones are behind. -/
theorem doOptimizeWorkflow_iff (env : Env K) (candidates : List Ip) (manual : Bool) (s : State) :
    InstallsLive env candidates s (doOptimizeWorkflow env candidates manual s) ↔
      DeadBehind (refined env candidates) := by
  by_cases hv : validInitial (items env candidates) = 0
  · have hnil : refined env candidates = [] := by simp [refined, hv]
    obtain ⟨hf, ht, hp⟩ := doOptimizeWorkflow_failed manual s hv
    refine iff_of_true ⟨fun h => (ht h).elim, fun _ => ⟨hf, ht, hp⟩⟩ (Or.inl ?_)
    rw [hnil]
    exact fun c hc => (List.not_mem_nil hc).elim
  · obtain ⟨ht, hf, htop⟩ := doOptimizeWorkflow_success manual s hv
    have hne := picked_ne_nil hv
    constructor
    · intro h
      obtain ⟨listed, hips, -, hone, hlen, hlisted, -⟩ := h.success ht
      have hlne : listed ≠ [] := by
        refine List.ne_nil_of_length_pos ?_
        rw [hlen]
        simp only [TOP_N_SELECT]
        omega
      have hsame := topIps_inj hlne hne (hips.symm.trans htop)
      -- the addresses of the refined candidates differ, so the listed ones are the picked ones
      refine picked_alive_iff.mp fun c hc => ?_
      have hmem : c.ip ∈ listed.map CandidateItem.ip := by
        rw [hsame]
        exact List.mem_map_of_mem hc
      obtain ⟨d, hd, heq⟩ := List.mem_map.mp hmem
      have hcd := List.inj_on_of_nodup_map refined_nodup (hlisted d hd).1 (picked_perm_mem hc) heq
      rw [← hcd]
      exact (hlisted d hd).2
    · intro h
      have halive := picked_alive_iff.mpr h
      have hlen := countP_alive_picked h
      have hpos := List.length_pos_iff.mpr hne
      refine ⟨fun _ => ⟨picked (refined env candidates), htop, picked_nodup, ?_, hlen, ?_, ?_, ?_⟩, ?_⟩
      · omega
      · exact fun c hc => ⟨picked_perm_mem hc, halive c hc⟩
      · exact (sortBy_pairwise _ _).sublist (List.take_sublist _ _)
      · intro c hc _ hnot d hd
        have hmem := (sortBy_perm CandidateItem.elasticScore _).mem_iff.mpr hc
        rw [← List.take_append_drop (min (refined env candidates).length TOP_N_SELECT)
          (sortBy CandidateItem.elasticScore (refined env candidates))] at hmem
        rcases List.mem_append.mp hmem with hmem | hmem
        · exact (hnot hmem).elim
        · exact not_lt_of_ge (le_of_take_drop hd hmem)
      · intro hzero
        omega

/-- Without a successful refine probe every refined candidate is dead. -/
theorem refined_dead (h : ∀ ip n, env.refine ip n ≤ 0) :
    (refined env candidates).countP CandidateItem.alive = 0 := by
  refine List.countP_eq_zero.mpr ?_
  intro c hc
  obtain ⟨c, -, rfl⟩ := List.mem_map.mp hc
  rw [probeRefine, computeMetricsAndScore_alive, CandidateItem.alive, List.any_eq_true]
  rintro ⟨x, hx, hpos⟩
  obtain ⟨n, -, rfl⟩ := List.mem_map.mp hx
  exact not_lt_of_ge (h c.ip n) (of_decide_eq_true hpos)

/-- The only candidate answers the first probe and none of the refine probes, and is installed. -/
theorem dead_installed : ¬ InstallsLive
    (⟨fun _ => 10, fun _ _ => -1, Real.sqrt, "", fun _ _ _ => "", fun _ => ""⟩ : Env ℝ)
    [⟨"104.16.0.0", by decide⟩] ⟨⟨fun _ => none, "default"⟩, false, true, "", "", "", .idle⟩
    (doOptimizeWorkflow ⟨fun _ => 10, fun _ _ => -1, Real.sqrt, "", fun _ _ _ => "", fun _ => ""⟩
      [⟨"104.16.0.0", by decide⟩] true
      ⟨⟨fun _ => none, "default"⟩, false, true, "", "", "", .idle⟩) := by
  intro h
  refine (doOptimizeWorkflow_success _ _ ?_).2.1 (h.failure (refined_dead fun _ _ => ?_)).1
  · norm_num [validInitial, items, pool, sortBy, probeFirst, newItem]
  · norm_num

end XTunnel.Service.CfOptimizer
