import TxGen.Lib.Lists
import TxGen.Scenario.Leases

set_option autoImplicit false

/-! # Leases exclude, and are taken in order

An address has one semaphore in whichever pools it is, and an instance takes its permits in the order
of their addresses. So an instance that waits only holds addresses below the one it waits for. -/

namespace TxGen

/-! ## One semaphore for each address -/

/-- The permits are the semaphores of the addresses. -/
def Permits (semaphores : List Address) (permits : List ℕ) (addresses : List Address) : Prop :=
  permits.length = addresses.length ∧
    ∀ (i k : ℕ), permits[i]? = some k → semaphores[k]? = addresses[i]?

theorem getElem?_of_prefix {semaphores semaphores' : List Address} (h : semaphores <+: semaphores')
    {k : ℕ} {address : Address} (hk : semaphores[k]? = some address) :
    semaphores'[k]? = some address := by
  obtain ⟨rest, rfl⟩ := h
  rwa [List.getElem?_append_left (List.getElem?_eq_some_iff.1 hk).1]

theorem Permits.mono {semaphores semaphores' : List Address} (h : semaphores <+: semaphores')
    {permits : List ℕ} {addresses : List Address} (hp : Permits semaphores permits addresses) :
    Permits semaphores' permits addresses := by
  refine ⟨hp.1, fun i k hk => ?_⟩
  have hi : i < addresses.length := hp.1 ▸ (List.getElem?_eq_some_iff.1 hk).1
  have hold := hp.2 i k hk
  rw [List.getElem?_eq_getElem hi] at hold ⊢
  exact getElem?_of_prefix h hold

theorem permitFor_spec {semaphores : List Address} (hnodup : semaphores.Nodup) (address : Address) :
    semaphores <+: (permitFor semaphores address).2 ∧ (permitFor semaphores address).2.Nodup ∧
      (permitFor semaphores address).2[(permitFor semaphores address).1]? = some address := by
  unfold permitFor
  split
  · rename_i hin
    exact ⟨List.prefix_refl _, hnodup, by simp [List.idxOf_lt_length_iff.2 hin]⟩
  · rename_i hin
    refine ⟨List.prefix_append .., ?_, by simp⟩
    exact hnodup.append (List.nodup_singleton _) (List.disjoint_singleton.2 hin)

theorem permitsFor_spec {semaphores : List Address} (hnodup : semaphores.Nodup)
    (addresses : List Address) : semaphores <+: (permitsFor semaphores addresses).2 ∧
      (permitsFor semaphores addresses).2.Nodup ∧
      Permits (permitsFor semaphores addresses).2 (permitsFor semaphores addresses).1 addresses := by
  induction addresses generalizing semaphores with
  | nil => exact ⟨List.prefix_refl _, hnodup, rfl, nofun⟩
  | cons address addresses ih =>
      obtain ⟨hfirst, hnodup', hhead⟩ := permitFor_spec hnodup address
      obtain ⟨hrest, hnodup'', hlength, htail⟩ := ih hnodup'
      refine ⟨hfirst.trans hrest, hnodup'', congrArg (· + 1) hlength, fun i k hk => ?_⟩
      cases i with
      | zero =>
          cases hk
          exact getElem?_of_prefix hrest hhead
      | succ i => exact htail i k hk

/-- What the build makes sure of: each lease pool refers to the semaphores of its addresses. -/
def PoolsOk (poolAddresses : String → List Address) (semaphores : List Address)
    (pools : List (String × LeasePool)) : Prop :=
  ∀ p ∈ pools, Permits semaphores p.2.permits (poolAddresses p.1) ∧ p.2.permits ≠ []

theorem buildLeasePools_ok {bindings : List (String × BindingDef)}
    {poolAddresses : String → List Address} {poolSeed : String → ℕ} {names : List String}
    {semaphores semaphores' : List Address} {pools pools' : List (String × LeasePool)}
    (hleased : ∀ pool ∈ names, 0 < leaseCount bindings pool) (hnodup : semaphores.Nodup)
    (hpools : PoolsOk poolAddresses semaphores pools)
    (hok : buildLeasePools bindings poolAddresses poolSeed names semaphores pools =
      .ok (pools', semaphores')) :
    semaphores'.Nodup ∧ PoolsOk poolAddresses semaphores' pools' ∧
      ∀ pool, pool ∈ pools.map Prod.fst ∨ pool ∈ names → pool ∈ pools'.map Prod.fst := by
  induction names generalizing semaphores pools with
  | nil =>
      cases hok
      exact ⟨hnodup, hpools, fun pool hin => hin.resolve_right List.not_mem_nil⟩
  | cons pool rest ih =>
      obtain ⟨_, hcount, hok⟩ := bind_eq_ok.1 hok
      rw [bailIf_eq_ok, Nat.not_lt] at hcount
      obtain ⟨hprefix', hnodup', hpermits⟩ := permitsFor_spec hnodup (poolAddresses pool)
      have hne : (permitsFor semaphores (poolAddresses pool)).1 ≠ [] := by
        rw [← List.length_pos_iff, hpermits.1]
        exact Nat.lt_of_lt_of_le (hleased pool List.mem_cons_self) hcount
      have hpools' : PoolsOk poolAddresses (permitsFor semaphores (poolAddresses pool)).2
          (pools ++ [(pool, ⟨(permitsFor semaphores (poolAddresses pool)).1, leaseCount bindings pool,
            poolSeed pool % (poolAddresses pool).length⟩)]) := by
        intro p hp
        rcases List.mem_append.1 hp with hp | hp
        · exact ⟨(hpools p hp).1.mono hprefix', (hpools p hp).2⟩
        · obtain rfl := List.mem_singleton.1 hp
          exact ⟨hpermits, hne⟩
      obtain ⟨hlast, hok', hnames⟩ :=
        ih (fun p hp => hleased p (List.mem_cons_of_mem _ hp)) hnodup' hpools' hok
      refine ⟨hlast, hok', fun p hp => hnames p ?_⟩
      rcases hp with hp | hp
      · exact Or.inl (by simp [List.mem_map.1 hp])
      · rcases List.mem_cons.1 hp with rfl | hp
        · exact Or.inl (by simp)
        · exact Or.inr hp

/-- A lease refers to the semaphores of its addresses. -/
def BindingRuntime.Ok (semaphores : List Address) : BindingRuntime → Prop
  | .account _ .lease addresses leasePool _ =>
    ∃ pool, leasePool = some pool ∧ Permits semaphores pool.permits addresses ∧ pool.permits ≠ []
  | _ => True

theorem buildRuntimes_ok {poolAddresses : String → List Address} {semaphores : List Address}
    {pools : List (String × LeasePool)} (hpools : PoolsOk poolAddresses semaphores pools)
    {bindings : List (String × BindingDef)} {slots : String → ℕ}
    (hleased : ∀ b ∈ bindings, ∀ pool, b.2 = .account pool .lease → pool ∈ pools.map Prod.fst)
    {runtimes : List (String × BindingRuntime)}
    (hok : buildRuntimes poolAddresses pools bindings slots = .ok runtimes) :
    ∀ r ∈ runtimes, r.2.Ok semaphores := by
  induction bindings generalizing slots runtimes with
  | nil =>
      cases hok
      nofun
  | cons b rest ih =>
      obtain ⟨hb, hleased⟩ := List.forall_mem_cons.1 hleased
      have hcons : ∀ {slots : String → ℕ} {r : String × BindingRuntime}, r.2.Ok semaphores →
          (do return r :: (← buildRuntimes poolAddresses pools rest slots)) = Except.ok runtimes →
          ∀ r ∈ runtimes, r.2.Ok semaphores := by
        intro slots r hr hok
        obtain ⟨rest', hrest, hok⟩ := bind_eq_ok.1 hok
        cases hok
        exact List.forall_mem_cons.2 ⟨hr, ih hleased hrest⟩
      obtain ⟨name, binding⟩ := b
      cases binding with
      | bytes32 bytes => exact hcons (r := (name, .bytes32)) trivial hok
      | account pool selection =>
          cases selection with
          | lease =>
              refine hcons ?_ hok
              have hin := hb pool rfl
              cases hlookup : pools.lookup pool with
              | none =>
                  obtain ⟨p, hp, rfl⟩ := List.mem_map.1 hin
                  exact absurd (List.lookup_eq_none_iff.1 hlookup p hp) (by simp)
              | some p =>
                  obtain ⟨l₁, l₂, rfl, -⟩ := List.lookup_eq_some_iff.1 hlookup
                  exact ⟨p, rfl, hpools (pool, p) (List.mem_append_right _ List.mem_cons_self)⟩
          | random => exact hcons (r := (name, .account pool .random _ _ 0)) trivial hok
          | index index =>
              obtain ⟨_, -, hok⟩ := bind_eq_ok.1 hok
              exact hcons (r := (name, .account pool (.index index) _ _ 0)) trivial hok

/-- Requests name addresses by their semaphores. -/
def Named (semaphores : List Address) (r : LeaseRequest) : Prop :=
  semaphores[r.permit]? = some r.address

theorem mem_leasedPools {bindings : List (String × BindingDef)} {pool : String} :
    pool ∈ leasedPools bindings ↔ ∃ b ∈ bindings, b.2 = .account pool .lease := by
  rw [leasedPools, List.mem_dedup, List.mem_filterMap]
  refine exists_congr fun b => and_congr_right fun _ => ?_
  split
  · rename_i p heq
    simp [heq]
  · rename_i hne
    exact ⟨nofun, fun heq => absurd heq (hne pool)⟩

theorem buildBindingRuntimes_ok {bindings : List (String × BindingDef)}
    {poolAddresses : String → List Address} {poolSeed : String → ℕ}
    {runtimes : List (String × BindingRuntime)} {semaphores : List Address}
    (hok : buildBindingRuntimes bindings poolAddresses poolSeed = .ok (runtimes, semaphores)) :
    semaphores.Nodup ∧ ∀ r ∈ runtimes, r.2.Ok semaphores := by
  obtain ⟨⟨pools, semaphores'⟩, hpools, hok⟩ := bind_eq_ok.1 hok
  obtain ⟨runtimes', hruntimes, hok⟩ := bind_eq_ok.1 hok
  cases hok
  have hcount : ∀ pool ∈ leasedPools bindings, 0 < leaseCount bindings pool := by
    intro pool hin
    obtain ⟨b, hb, heq⟩ := mem_leasedPools.1 hin
    exact List.countP_pos_iff.2 ⟨b, hb, decide_eq_true heq⟩
  obtain ⟨hnodup, hpools', hnames⟩ := buildLeasePools_ok hcount List.nodup_nil
    (fun p hp => absurd hp List.not_mem_nil) hpools
  exact ⟨hnodup, buildRuntimes_ok hpools' (fun b hb pool heq =>
    hnames pool (Or.inr (mem_leasedPools.2 ⟨b, hb, heq⟩))) hruntimes⟩

theorem BindingRuntime.Ok.named {semaphores : List Address} {runtime : BindingRuntime}
    (h : runtime.Ok semaphores) {inst : ℕ} {r : LeaseRequest}
    (hr : runtime.leaseRequest inst = some r) : Named semaphores r := by
  cases runtime with
  | bytes32 => cases hr
  | account pool selection addresses leasePool slot =>
      cases selection with
      | lease =>
          obtain ⟨p, rfl, hpermits, -⟩ := h
          obtain ⟨address, haddress, hr⟩ := Option.bind_eq_some_iff.1 hr
          obtain ⟨permit, hpermit, hr⟩ := Option.bind_eq_some_iff.1 hr
          cases hr
          exact (hpermits.2 _ _ hpermit).trans haddress
      | _ => cases hr

/-- Each lease binding of an instance leads to a request. -/
theorem leaseRequest_isSome {semaphores : List Address} {pool : String} {addresses : List Address}
    {leasePool : Option LeasePool} {slot : ℕ}
    (h : (BindingRuntime.account pool .lease addresses leasePool slot).Ok semaphores) (inst : ℕ) :
    ((BindingRuntime.account pool .lease addresses leasePool slot).leaseRequest inst).isSome := by
  obtain ⟨p, rfl, hpermits, hne⟩ := h
  have hlt : p.index inst slot < p.permits.length := Nat.mod_lt _ (List.length_pos_iff.2 hne)
  simp [BindingRuntime.leaseRequest, List.getElem?_eq_getElem hlt,
    List.getElem?_eq_getElem (hpermits.1 ▸ hlt)]

/-- Of sorted requests without two neighbours of one address each is below the next. -/
theorem pairwise_of_not_sameAddress {requests : List LeaseRequest}
    (hsorted : requests.Pairwise fun x y => x.address.toNat ≤ y.address.toNat)
    (hsame : sameAddress requests = false) :
    requests.Pairwise fun x y => x.address.toNat < y.address.toNat := by
  induction requests with
  | nil => exact .nil
  | cons x rest ih =>
      obtain ⟨hle, hsorted'⟩ := List.pairwise_cons.1 hsorted
      cases rest with
      | nil => exact List.pairwise_singleton ..
      | cons y rest =>
          simp only [sameAddress, Bool.or_eq_false_iff, decide_eq_false_iff_not] at hsame
          have hrest := ih hsorted' hsame.2
          have hxy : x.address.toNat < y.address.toNat :=
            Nat.lt_of_le_of_ne (hle y List.mem_cons_self) fun heq =>
              hsame.1 (BitVec.eq_of_toNat_eq heq)
          refine List.pairwise_cons.2 ⟨fun z hz => ?_, hrest⟩
          rcases List.mem_cons.1 hz with rfl | hz
          · exact hxy
          · exact hxy.trans ((List.pairwise_cons.1 hrest).1 z hz)

theorem leaseRequests_ok {semaphores : List Address} {runtimes : List (String × BindingRuntime)}
    (hruntimes : ∀ r ∈ runtimes, r.2.Ok semaphores) {inst : ℕ} {requests : List LeaseRequest}
    (hok : leaseRequests runtimes inst = .ok requests) :
    requests.Pairwise (fun x y => x.address.toNat < y.address.toNat) ∧
      ∀ r ∈ requests, Named semaphores r := by
  obtain ⟨_, hsame, hok⟩ := bind_eq_ok.1 hok
  cases hok
  rw [bailIf_eq_ok, Bool.not_eq_true] at hsame
  refine ⟨pairwise_of_not_sameAddress ?_ hsame, fun r hr => ?_⟩
  · have : Std.Total fun x y : LeaseRequest => x.address.toNat ≤ y.address.toNat :=
      ⟨fun x y => Nat.le_total _ _⟩
    have : IsTrans LeaseRequest fun x y => x.address.toNat ≤ y.address.toNat :=
      ⟨fun x y z => Nat.le_trans⟩
    exact List.pairwise_insertionSort _ _
  · obtain ⟨runtime, hruntime, hr⟩ := List.mem_filterMap.1 ((List.mem_insertionSort _).1 hr)
    exact (hruntimes runtime hruntime).named hr

/-! ## What the instances hold -/

namespace LeasePhase

/-- The permits that the instance has taken. -/
def leases : LeasePhase → List LeaseRequest
  | .acquiring leases _ | .waiting leases _ _ | .running leases | .dropping leases => leases
  | .ended => []

def pending : LeasePhase → Option LeaseRequest
  | .waiting _ request _ => some request
  | _ => none

def todo : LeasePhase → List LeaseRequest
  | .acquiring _ todo | .waiting _ _ todo => todo
  | _ => []

/-- Everything the instance has to do with from now on, in its order. -/
def requests (phase : LeasePhase) : List LeaseRequest :=
  phase.leases ++ (phase.pending.toList ++ phase.todo)

/-- The instance has the permit or is in the queue. -/
def Involves (phase : LeasePhase) (permit : ℕ) : Prop :=
  ∃ r, (r ∈ phase.leases ∨ phase.pending = some r) ∧ r.permit = permit

theorem Involves.requests {phase : LeasePhase} {permit : ℕ} (h : phase.Involves permit) :
    ∃ r ∈ phase.requests, r.permit = permit := by
  obtain ⟨r, hr | hr, rfl⟩ := h
  · exact ⟨r, List.mem_append_left _ hr, rfl⟩
  · exact ⟨r, List.mem_append_right _ (List.mem_append_left _ (by simp [hr])), rfl⟩

end LeasePhase

namespace LeaseRun

/-- What an instance holds: the permits it has taken, and the one it was given while it waited. -/
def Holds (s : LeaseRun) (inst : ℕ) (r : LeaseRequest) : Prop :=
  ∃ phase, s.instances[inst]? = some phase ∧
    (r ∈ phase.leases ∨ phase.pending = some r ∧ (s.semaphores r.permit).holder = some inst)

structure Inv (semaphores : List Address) (s : LeaseRun) : Prop where
  fair : ∀ k, (s.semaphores k).Fair
  involved : ∀ (k inst : ℕ), (s.semaphores k).Involved inst ↔
    ∃ phase, s.instances[inst]? = some phase ∧ phase.Involves k
  taken : ∀ (inst : ℕ) (phase : LeasePhase), s.instances[inst]? = some phase →
    ∀ r ∈ phase.leases, (s.semaphores r.permit).holder = some inst
  named : ∀ (inst : ℕ) (phase : LeasePhase), s.instances[inst]? = some phase →
    ∀ r ∈ phase.requests, Named semaphores r
  sorted : ∀ (inst : ℕ) (phase : LeasePhase), s.instances[inst]? = some phase →
    phase.requests.Pairwise fun x y => x.address.toNat < y.address.toNat

section Step

variable {semaphores : List Address} {s : LeaseRun} {inst : ℕ} {phase phase' : LeasePhase}

/-- A move of one instance. -/
theorem Inv.move (h : s.Inv semaphores) (hinst : s.instances[inst]? = some phase)
    {sems : ℕ → BinarySemaphore ℕ} (hfair : ∀ k, (sems k).Fair)
    (hself : ∀ k, (sems k).Involved inst ↔ phase'.Involves k)
    (hothers : ∀ k j, j ≠ inst → ((sems k).Involved j ↔ (s.semaphores k).Involved j))
    (htaken : ∀ r ∈ phase'.leases, (sems r.permit).holder = some inst)
    (hkept : ∀ k j, j ≠ inst → (s.semaphores k).holder = some j → (sems k).holder = some j)
    (hrequests : phase'.requests.Sublist phase.requests) :
    Inv semaphores { s.goto inst phase' with semaphores := sems } := by
  have hlt := (List.getElem?_eq_some_iff.1 hinst).1
  refine ⟨hfair, fun k j => ?_, fun j p hp r hr => ?_, fun j p hp => ?_, fun j p hp => ?_⟩
  · show _ ↔ ∃ p, (s.instances.set inst phase')[j]? = some p ∧ p.Involves k
    by_cases hj : j = inst
    · subst hj
      simp [List.getElem?_set_self hlt, hself]
    · rw [List.getElem?_set_ne (Ne.symm hj), hothers k j hj]
      exact h.involved k j
  · rcases List.getElem?_set_cases hp with ⟨rfl, rfl⟩ | ⟨hj, hp⟩
    · exact htaken r hr
    · exact hkept _ j hj (h.taken j p hp r hr)
  · rcases List.getElem?_set_cases hp with ⟨rfl, rfl⟩ | ⟨-, hp⟩
    · exact fun r hr => h.named j phase hinst r (hrequests.subset hr)
    · exact h.named j p hp
  · rcases List.getElem?_set_cases hp with ⟨rfl, rfl⟩ | ⟨-, hp⟩
    · exact (h.sorted j phase hinst).sublist hrequests
    · exact h.sorted j p hp

/-- A move that leaves the semaphores alone. -/
theorem Inv.goto (h : s.Inv semaphores) (hinst : s.instances[inst]? = some phase)
    (hinvolves : ∀ k, phase'.Involves k ↔ phase.Involves k)
    (htaken : ∀ r ∈ phase'.leases, (s.semaphores r.permit).holder = some inst)
    (hrequests : phase'.requests.Sublist phase.requests) : (s.goto inst phase').Inv semaphores := by
  refine h.move hinst h.fair (fun k => ?_) (fun _ _ _ => Iff.rfl) htaken (fun _ _ _ hj => hj) hrequests
  rw [h.involved, hinvolves]
  simp [hinst]

/-- Two requests of an instance have different permits. -/
theorem Inv.permit_ne (h : s.Inv semaphores) (hinst : s.instances[inst]? = some phase)
    {l₁ l₂ : List LeaseRequest} {request : LeaseRequest}
    (hphase : phase.requests = l₁ ++ request :: l₂) {r : LeaseRequest} (hr : r ∈ l₁ ∨ r ∈ l₂) :
    r.permit ≠ request.permit := by
  intro heq
  have hsorted := h.sorted inst phase hinst
  have hnamed := h.named inst phase hinst
  rw [hphase] at hsorted hnamed
  have hin : r ∈ l₁ ++ request :: l₂ := by
    rcases hr with hr | hr
    · exact List.mem_append_left _ hr
    · exact List.mem_append_right _ (List.mem_cons_of_mem _ hr)
  have hself : request ∈ l₁ ++ request :: l₂ := List.mem_append_right _ List.mem_cons_self
  have hsame : r.address = request.address :=
    Option.some.inj ((hnamed r hin).symm.trans (heq ▸ hnamed request hself))
  obtain ⟨-, hright, hcross⟩ := List.pairwise_append.1 hsorted
  rcases hr with hr | hr
  · exact absurd (hsame ▸ hcross r hr request List.mem_cons_self) (Nat.lt_irrefl _)
  · exact absurd (hsame ▸ (List.pairwise_cons.1 hright).1 r hr) (Nat.lt_irrefl _)

theorem Inv.acquire (h : s.Inv semaphores) {leases todo : List LeaseRequest}
    {request : LeaseRequest}
    (hinst : s.instances[inst]? = some (.acquiring leases (request :: todo))) {t : LeaseRun}
    (hst : s.advance inst (.acquiring leases (request :: todo)) = some t) : t.Inv semaphores := by
  have hne : ∀ r, r ∈ leases ∨ r ∈ todo → r.permit ≠ request.permit :=
    fun r hr => h.permit_ne hinst rfl hr
  have hfresh : ¬ (s.semaphores request.permit).Involved inst := by
    rw [h.involved]
    rintro ⟨p, hp, r, hr | hr, hk⟩
    · obtain rfl := Option.some.inj (hinst.symm.trans hp)
      exact hne r (Or.inl hr) hk
    · obtain rfl := Option.some.inj (hinst.symm.trans hp)
      cases hr
  have hfair : ∀ k, (Function.update s.semaphores request.permit
      ((s.semaphores request.permit).acquire inst).2 k).Fair := by
    intro k
    by_cases hk : k = request.permit
    · subst hk
      rw [Function.update_self]
      exact (h.fair _).acquire hfresh
    · rw [Function.update_of_ne hk]
      exact h.fair k
  have hold : ∀ k, (s.semaphores k).Involved inst ↔
      (LeasePhase.acquiring leases (request :: todo)).Involves k := by
    intro k
    rw [h.involved]
    simp [hinst]
  simp only [LeaseRun.advance] at hst
  rcases BinarySemaphore.acquire_spec (h.fair request.permit) inst with ⟨hfree, heq⟩ | ⟨j, hj, heq⟩
  · -- the permit is free
    have hempty := (h.fair request.permit).taken hfree
    rw [heq] at hst hfair
    cases hst
    refine h.move hinst hfair (fun k => ?_) (fun k i hi => ?_) (fun r hr => ?_)
      (fun k i hi hholder => ?_) (by simp [LeasePhase.requests, LeasePhase.leases,
        LeasePhase.pending, LeasePhase.todo])
    · by_cases hk : k = request.permit
      · subst hk
        rw [Function.update_self]
        exact ⟨fun _ => ⟨request, Or.inl (by simp [LeasePhase.leases]), rfl⟩, fun _ => Or.inl rfl⟩
      · rw [Function.update_of_ne hk, hold]
        simp [LeasePhase.Involves, LeasePhase.leases, LeasePhase.pending, or_and_right, exists_or,
          Ne.symm hk]
    · by_cases hk : k = request.permit
      · subst hk
        simp [BinarySemaphore.Involved, hfree, hempty, Ne.symm hi]
      · rw [Function.update_of_ne hk]
    · rcases List.mem_append.1 hr with hr | hr
      · rw [Function.update_of_ne (hne r (Or.inl hr))]
        exact h.taken inst _ hinst r hr
      · obtain rfl := List.mem_singleton.1 hr
        rw [Function.update_self]
    · by_cases hk : k = request.permit
      · subst hk
        cases hfree.symm.trans hholder
      · rwa [Function.update_of_ne hk]
  · -- it queues up
    rw [heq] at hst hfair
    cases hst
    refine h.move hinst hfair (fun k => ?_) (fun k i hi => ?_) (fun r hr => ?_)
      (fun k i hi hholder => ?_) (List.Sublist.refl _)
    · by_cases hk : k = request.permit
      · subst hk
        rw [Function.update_self]
        exact ⟨fun _ => ⟨request, Or.inr rfl, rfl⟩, fun _ => Or.inr (by simp)⟩
      · rw [Function.update_of_ne hk, hold]
        simp [LeasePhase.Involves, LeasePhase.leases, LeasePhase.pending, or_and_right, exists_or,
          Ne.symm hk]
    · by_cases hk : k = request.permit
      · subst hk
        simp [BinarySemaphore.Involved, hj, hi]
      · rw [Function.update_of_ne hk]
    · rw [Function.update_of_ne (hne r (Or.inl hr))]
      exact h.taken inst _ hinst r hr
    · by_cases hk : k = request.permit
      · subst hk
        rw [Function.update_self, ← hj]
        exact hholder
      · rwa [Function.update_of_ne hk]

theorem Inv.drop (h : s.Inv semaphores) {lease : LeaseRequest} {leases : List LeaseRequest}
    (hinst : s.instances[inst]? = some (.dropping (lease :: leases))) :
    Inv semaphores { s.goto inst (.dropping leases) with
      semaphores := Function.update s.semaphores lease.permit
        (s.semaphores lease.permit).release } := by
  have hphase : (LeasePhase.dropping (lease :: leases)).requests = [] ++ lease :: leases := by
    simp [LeasePhase.requests, LeasePhase.leases, LeasePhase.pending, LeasePhase.todo]
  have hne : ∀ r ∈ leases, r.permit ≠ lease.permit :=
    fun r hr => h.permit_ne hinst hphase (Or.inr hr)
  have hholder := h.taken inst _ hinst lease List.mem_cons_self
  have hreleased := BinarySemaphore.involved_release (h.fair lease.permit) hholder
  refine h.move hinst (fun k => ?_) (fun k => ?_) (fun k i hi => ?_) (fun r hr => ?_)
    (fun k i hi hk => ?_) (by simp [LeasePhase.requests, LeasePhase.leases, LeasePhase.pending,
      LeasePhase.todo])
  · by_cases hk : k = lease.permit
    · subst hk
      rw [Function.update_self]
      exact (h.fair _).release
    · rw [Function.update_of_ne hk]
      exact h.fair k
  · by_cases hk : k = lease.permit
    · subst hk
      rw [Function.update_self, hreleased]
      simpa [LeasePhase.Involves, LeasePhase.leases, LeasePhase.pending] using hne
    · rw [Function.update_of_ne hk, h.involved]
      simp [hinst, LeasePhase.Involves, LeasePhase.leases, LeasePhase.pending, Ne.symm hk]
  · by_cases hk : k = lease.permit
    · subst hk
      rw [Function.update_self, hreleased]
      simp [hi]
    · rw [Function.update_of_ne hk]
  · rw [Function.update_of_ne (hne r hr)]
    exact h.taken inst _ hinst r (List.mem_cons_of_mem _ hr)
  · by_cases hk' : k = lease.permit
    · subst hk'
      exact absurd (Option.some.inj (hk.symm.trans hholder)) hi
    · rwa [Function.update_of_ne hk']

theorem Inv.advance (h : s.Inv semaphores) (hinst : s.instances[inst]? = some phase)
    {t : LeaseRun} (hst : s.advance inst phase = some t) : t.Inv semaphores := by
  have htaken := h.taken inst phase hinst
  cases phase with
  | acquiring leases todo =>
      cases todo with
      | nil =>
          cases hst
          exact h.goto hinst (fun _ => Iff.rfl) htaken (List.Sublist.refl _)
      | cons request todo => exact h.acquire hinst hst
  | waiting leases request todo =>
      simp only [LeaseRun.advance, Option.ite_none_right_eq_some, Option.some.injEq] at hst
      obtain ⟨hgiven, rfl⟩ := hst
      refine h.goto hinst (fun k => ?_) (fun r hr => ?_) ?_
      · simp [LeasePhase.Involves, LeasePhase.leases, LeasePhase.pending, eq_comm]
      · rcases List.mem_append.1 hr with hr | hr
        · exact htaken r hr
        · exact List.mem_singleton.1 hr ▸ hgiven
      · simp [LeasePhase.requests, LeasePhase.leases, LeasePhase.pending, LeasePhase.todo]
  | running leases =>
      cases hst
      exact h.goto hinst (fun _ => Iff.rfl) htaken (List.Sublist.refl _)
  | dropping leases =>
      cases leases with
      | nil =>
          cases hst
          exact h.goto hinst (fun _ => Iff.rfl) nofun (List.Sublist.refl _)
      | cons lease leases =>
          cases hst
          exact h.drop hinst
  | ended => cases hst

/-- An instance begins with its requests, and without permits. -/
theorem Inv.start (h : s.Inv semaphores) {runtimes : List (String × BindingRuntime)}
    (hruntimes : ∀ r ∈ runtimes, r.2.Ok semaphores) : (s.start runtimes).Inv semaphores := by
  have hnew : ∃ phase, LeasePhase.bound runtimes s.instances.length = phase ∧
      phase.leases = [] ∧ phase.pending = none ∧ (∀ r ∈ phase.requests, Named semaphores r) ∧
      phase.requests.Pairwise fun x y => x.address.toNat < y.address.toNat := by
    unfold LeasePhase.bound
    cases hok : leaseRequests runtimes s.instances.length with
    | error e => exact ⟨_, rfl, rfl, rfl, nofun, .nil⟩
    | ok requests =>
        obtain ⟨hsorted, hnamed⟩ := leaseRequests_ok hruntimes hok
        exact ⟨_, rfl, rfl, rfl, hnamed, hsorted⟩
  obtain ⟨phase, heq, hleases, hpending, hnamed, hsorted⟩ := hnew
  rw [LeaseRun.start, heq]
  have hnone : ∀ k, ¬ phase.Involves k := by
    rintro k ⟨r, hr | hr, -⟩
    · simp [hleases] at hr
    · simp [hpending] at hr
  refine ⟨h.fair, fun k j => (h.involved k j).trans ?_, fun j p hp => ?_, fun j p hp => ?_,
    fun j p hp => ?_⟩
  · constructor
    · rintro ⟨p, hp, hk⟩
      have hlt := (List.getElem?_eq_some_iff.1 hp).1
      exact ⟨p, (List.getElem?_append_left hlt).trans hp, hk⟩
    · rintro ⟨p, hp, hk⟩
      rcases List.getElem?_concat_cases hp with hp | ⟨-, rfl⟩
      · exact ⟨p, hp, hk⟩
      · exact absurd hk (hnone k)
  · rcases List.getElem?_concat_cases hp with hp | ⟨-, rfl⟩
    · exact h.taken j p hp
    · simp [hleases]
  · rcases List.getElem?_concat_cases hp with hp | ⟨-, rfl⟩
    · exact h.named j p hp
    · exact hnamed
  · rcases List.getElem?_concat_cases hp with hp | ⟨-, rfl⟩
    · exact h.sorted j p hp
    · exact hsorted

end Step

theorem inv_reachable {semaphores : List Address} {runtimes : List (String × BindingRuntime)}
    (hruntimes : ∀ r ∈ runtimes, r.2.Ok semaphores) {s : LeaseRun}
    (h : (leaseSystem runtimes).Reachable s) : s.Inv semaphores := by
  refine h.invariant ?_ fun s label t hinv hst => ?_
  · refine ⟨fun _ => BinarySemaphore.fair_empty, fun k inst => ⟨?_, nofun⟩, nofun, nofun, nofun⟩
    rintro (hholder | hin)
    · cases hholder
    · cases hin
  · cases label with
    | start =>
        cases hst
        exact hinv.start hruntimes
    | advance inst =>
        obtain ⟨phase, hinst, hst⟩ := Option.bind_eq_some_iff.1 hst
        exact hinv.advance hinst hst

/-! ## Who waits for whom -/

/-- The address that an instance waits for; one that was given the permit only needs to be woken. -/
def waitsFor (s : LeaseRun) (inst : ℕ) : Option LeaseRequest :=
  (s.instances[inst]?.bind LeasePhase.pending).filter fun r =>
    (s.semaphores r.permit).holder ≠ some inst

def waitGraph (s : LeaseRun) : WaitGraph ℕ ℕ where
  waits inst := (s.waitsFor inst).map fun r => r.address.toNat
  place inst := ((s.waitsFor inst).map fun r => (s.semaphores r.permit).waiters.idxOf inst).getD 0
  holds inst address := ∃ r, s.Holds inst r ∧ r.address.toNat = address

theorem waitsFor_eq_some {s : LeaseRun} {inst : ℕ} {r : LeaseRequest} :
    s.waitsFor inst = some r ↔ ∃ phase, s.instances[inst]? = some phase ∧
      phase.pending = some r ∧ (s.semaphores r.permit).holder ≠ some inst := by
  simp only [waitsFor, Option.filter_eq_some_iff, Option.bind_eq_some_iff, decide_eq_true_eq]
  constructor
  · rintro ⟨⟨phase, hinst, hpending⟩, hne⟩
    exact ⟨phase, hinst, hpending, hne⟩
  · rintro ⟨phase, hinst, hpending, hne⟩
    exact ⟨⟨phase, hinst, hpending⟩, hne⟩

variable {semaphores : List Address} {s : LeaseRun}

/-- Whoever waits only holds addresses below. -/
theorem Inv.ascending (h : s.Inv semaphores) : s.waitGraph.Ascending := by
  rintro inst a ha a' ⟨r', ⟨phase', hinst', hr'⟩, rfl⟩
  obtain ⟨r, hr, rfl⟩ := Option.map_eq_some_iff.1 ha
  obtain ⟨phase, hinst, hpending, hne⟩ := waitsFor_eq_some.1 hr
  obtain rfl := Option.some.inj (hinst.symm.trans hinst')
  rcases hr' with hlease | ⟨hpending', hholder⟩
  · have hsorted := h.sorted inst phase hinst
    refine (List.pairwise_append.1 hsorted).2.2 r' hlease r ?_
    simp [hpending]
  · obtain rfl := Option.some.inj (hpending.symm.trans hpending')
    exact absurd hholder hne

/-- Whoever waits is blocked by the holder. -/
theorem Inv.blocked (h : s.Inv semaphores) {inst : ℕ} (hwaits : s.waitGraph.waits inst ≠ none) :
    ∃ j, s.waitGraph.BlockedBy inst j := by
  obtain ⟨a, ha⟩ := Option.ne_none_iff_exists'.1 hwaits
  obtain ⟨r, hr, rfl⟩ := Option.map_eq_some_iff.1 ha
  obtain ⟨phase, hinst, hpending, hne⟩ := waitsFor_eq_some.1 hr
  have hinvolved : (s.semaphores r.permit).Involved inst :=
    (h.involved _ inst).2 ⟨phase, hinst, r, Or.inr hpending, rfl⟩
  have hqueued := hinvolved.resolve_left hne
  cases hholder : (s.semaphores r.permit).holder with
  | none =>
      rw [(h.fair r.permit).taken hholder] at hqueued
      cases hqueued
  | some j =>
      obtain ⟨phase', hinst', r', hr', hpermit⟩ := (h.involved _ j).1 (Or.inl hholder)
      have hnamed : Named semaphores r := h.named inst phase hinst r
        (List.mem_append_right _ (List.mem_append_left _ (by simp [hpending])))
      have hnamed' : Named semaphores r' := by
        refine h.named j phase' hinst' r' ?_
        rcases hr' with hr' | hr'
        · exact List.mem_append_left _ hr'
        · exact List.mem_append_right _ (List.mem_append_left _ (by simp [hr']))
      have hsame : r'.address = r.address := by
        unfold Named at hnamed hnamed'
        rw [hpermit, hnamed] at hnamed'
        exact (Option.some.inj hnamed').symm
      refine ⟨j, r.address.toNat, ha, Or.inl ⟨r', ⟨phase', hinst', ?_⟩, congrArg _ hsame⟩⟩
      exact hr'.imp_right fun hr' => ⟨hr', hpermit ▸ hholder⟩

/-- Whoever blocks another and does not wait itself can go on. -/
theorem exists_advance {runtimes : List (String × BindingRuntime)} {j : ℕ}
    (hblocks : ∃ inst, s.waitGraph.BlockedBy inst j) (hfree : s.waitGraph.waits j = none) :
    (step runtimes s (.advance j)).isSome := by
  obtain ⟨inst, a, -, hholds | ⟨hwaits, -⟩⟩ := hblocks
  · obtain ⟨r, ⟨phase, hinst, hr⟩, -⟩ := hholds
    simp only [step, hinst, Option.bind_some]
    cases phase with
    | acquiring leases todo =>
        cases todo with
        | nil => rfl
        | cons request todo =>
            simp only [advance]
            split <;> rfl
    | waiting leases request todo =>
        have hgiven : (s.semaphores request.permit).holder = some j := by
          by_contra hne
          have : s.waitsFor j = some request := waitsFor_eq_some.2 ⟨_, hinst, rfl, hne⟩
          simp [waitGraph, this] at hfree
        simp [advance, hgiven]
    | running leases => rfl
    | dropping leases => cases leases <;> rfl
    | ended => rcases hr with hr | ⟨hr, -⟩ <;> cases hr
  · rw [hfree] at hwaits
    cases hwaits

end LeaseRun

open LeaseRun

/-- Whatever addresses the pools share, and in whichever order instances start, acquire and end. -/
theorem leases_exclusive_and_acyclic {bindings : List (String × BindingDef)}
    {poolAddresses : String → List Address} {poolSeed : String → ℕ}
    {runtimes : List (String × BindingRuntime)} {semaphores : List Address}
    (hbuild : buildBindingRuntimes bindings poolAddresses poolSeed = .ok (runtimes, semaphores))
    {s : LeaseRun} (h : (leaseSystem runtimes).Reachable s) :
    (∀ (i j : ℕ) (r r' : LeaseRequest), s.Holds i r → s.Holds j r' → r.address = r'.address →
      i = j) ∧
    (∀ i, ¬ Relation.TransGen s.waitGraph.BlockedBy i i) ∧
    ∀ i, s.waitGraph.waits i ≠ none → ∃ j, Relation.TransGen s.waitGraph.BlockedBy i j ∧
      s.waitGraph.waits j = none ∧ (step runtimes s (.advance j)).isSome := by
  obtain ⟨hnodup, hruntimes⟩ := buildBindingRuntimes_ok hbuild
  have hinv := inv_reachable hruntimes h
  refine ⟨fun i j r r' hi hj hsame => ?_,
    WaitGraph.not_transGen_blockedBy_self hinv.ascending, fun i hi => ?_⟩
  · have hholder : ∀ {i : ℕ} {r : LeaseRequest}, s.Holds i r →
        (s.semaphores r.permit).holder = some i ∧ Named semaphores r := by
      rintro i r ⟨phase, hinst, hr | ⟨hr, hgiven⟩⟩
      · exact ⟨hinv.taken i phase hinst r hr,
          hinv.named i phase hinst r (List.mem_append_left _ hr)⟩
      · exact ⟨hgiven, hinv.named i phase hinst r
          (List.mem_append_right _ (List.mem_append_left _ (by simp [hr])))⟩
    obtain ⟨hi, hr⟩ := hholder hi
    obtain ⟨hj, hr'⟩ := hholder hj
    have hpermit : r.permit = r'.permit :=
      (List.getElem?_inj (List.getElem?_eq_some_iff.1 hr).1 hnodup).1
        (hr.trans (hsame ▸ hr'.symm))
    exact Option.some.inj (hi.symm.trans (hpermit ▸ hj))
  · have hstarted : ∀ k, s.waitGraph.waits k ≠ none → k ∈ Finset.range s.instances.length := by
      intro k hk
      obtain ⟨a, ha⟩ := Option.ne_none_iff_exists'.1 hk
      obtain ⟨r, hr, -⟩ := Option.map_eq_some_iff.1 ha
      obtain ⟨phase, hinst, -⟩ := waitsFor_eq_some.1 hr
      exact Finset.mem_range.2 (List.getElem?_eq_some_iff.1 hinst).1
    obtain ⟨j, hij, hj⟩ := WaitGraph.exists_unblocked hinv.ascending _ hstarted
      (fun k hk => hinv.blocked hk) hi
    obtain ⟨k, -, hkj⟩ := Relation.TransGen.tail'_iff.1 hij
    exact ⟨j, hij, hj, exists_advance ⟨k, hkj⟩ hj⟩

namespace LeaseRun.Sample

/-- Each instance leases an account of either pool; the second account is in both. -/
def overlapping : List (String × BindingDef) :=
  [("payee", .account "shared" .lease), ("payer", .account "local" .lease)]

def addressesOf : String → List Address
  | "local" => [1, 2]
  | _ => [2, 3]

/-- The second instance waits for the account that the first one holds. -/
def twoInstances : List Label := [.start, .start, .advance 0, .advance 0, .advance 1]

end LeaseRun.Sample

open LeaseRun.Sample in
theorem leases_exclusive_and_acyclic_overlapping : ∃ runtimes semaphores s,
    buildBindingRuntimes overlapping addressesOf (fun _ => 0) = .ok (runtimes, semaphores) ∧
    (leaseSystem runtimes).Run System.anyStep {} twoInstances s ∧ s.waitGraph.waits 1 = some 2 ∧
    ¬ Relation.TransGen s.waitGraph.BlockedBy 1 1 ∧
    ∃ j, Relation.TransGen s.waitGraph.BlockedBy 1 j ∧ s.waitGraph.waits j = none ∧
      (step runtimes s (.advance j)).isSome := by
  obtain ⟨⟨runtimes, semaphores⟩, hbuild, hcheck⟩ : ∃ built,
      buildBindingRuntimes overlapping addressesOf (fun _ => 0) = .ok built ∧
        ((leaseSystem built.1).exec {} twoInstances).any
          (fun s => decide (s.waitGraph.waits 1 = some 2)) = true := by
    refine ⟨_, rfl, ?_⟩
    decide
  obtain ⟨s, hrun, hwaits⟩ :=
    System.run_of_check (P := fun s : LeaseRun => s.waitGraph.waits 1 = some 2) hcheck
  obtain ⟨-, hacyclic, hprogress⟩ := leases_exclusive_and_acyclic hbuild ⟨_, hrun⟩
  exact ⟨runtimes, semaphores, s, hbuild, hrun, hwaits, hacyclic 1, hprogress 1 (by simp [hwaits])⟩

end TxGen
