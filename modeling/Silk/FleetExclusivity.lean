import Silk.ControllerTenancy
import Silk.FleetForwarding

/-!
# A running daemon keeps its lease

The poller stops the daemon when renewals have failed for the grace duration, and
the controllers give a subnet away when its row has not been renewed for the
expiration time. If the expiration time is longer than the grace duration by three
cycles and what the clocks may drift, no controller gives away the subnet of a cell
whose daemon is still running, however the statements interleave and whatever
fails.
-/

namespace Silk.Fleet

open Controller Daemon GoJson GoNet Leaser Resumption

variable {ι : Type}

/-- The cells whose daemons run, how many seconds their cycles take together with the wait, and how
far their clocks are from the clock of the database: by an offset that nobody knows, and a drift. -/
structure Pace (ι : Type) where
  live : ι → Prop
  period : ℤ
  offset : ι → ℤ
  drift : ℤ

def Pace.Allows (pace : Pace ι) (ch : FleetChoice ι) : Prop :=
  ∀ i, pace.live i → pace.offset i ≤ ch.ahead i ∧ ch.ahead i ≤ pace.offset i + pace.drift

/-- Time passes as long as no cycle of a live cell takes too long. -/
def punctual [DecidableEq ι] (jsonError : GoString → DecodeError → String) (c : LeaseController)
    (sites : ι → Site) (network : Verdict → Prop) (allowed : Choice → Prop) (pace : Pace ι) :
    Machine (FleetCall ι) FleetReply (Outcome ι) (Job ι ℕ) (State ι) (FleetChoice ι) :=
  { fleet jsonError c sites network allowed with
    allowed := fun ch => Permits network allowed ch.wire ∧ pace.Allows ch
    drift := fun s t => t.tables = s.tables ∧ t.fired = s.fired ∧ timePasses s.db t.db ∧
      ∀ i, pace.live i → t.db.now ≤ s.fired i + pace.period }

def Site.grace (site : Site) : ℤ := site.detector.graceDuration.nanoseconds

/-- The lease outlives the grace duration by three cycles and the drift. -/
structure Pace.Suits (pace : Pace ι) (sites : ι → Site) (E : ℤ) : Prop where
  period : 0 ≤ pace.period
  drift : 0 ≤ pace.drift
  positive : ∀ i, pace.live i → 0 < (sites i).grace
  expiration : ∀ i, pace.live i →
    (sites i).grace + pace.drift + 3 * (second * pace.period) ≤ second * E

def Pace.tenants (pace : Pace ι) (sites : ι → Site) (l : Lease) : Prop :=
  ∃ i, pace.live i ∧ l = (sites i).lease

structure Kept (o : Overlay) (sites : ι → Site) (pace : Pace ι) (s : State ι) : Prop where
  rows : AllRows (Placed o sites) s.db
  timely : ∀ i, pace.live i → s.fired i ≤ s.db.now ∧ s.db.now ≤ s.fired i + pace.period
  renewed : ∀ i, pace.live i → ∃ t ≤ s.db.now, Held (sites i).lease t s.db ∧
    second * s.fired i < second * t + ((sites i).grace + pace.drift + 2 * (second * pace.period))

def Advances (o : Overlay) (sites : ι → Site) (pace : Pace ι) (s t : State ι) : Prop :=
  Kept o sites pace s → Kept o sites pace t ∧ s.db.now ≤ t.db.now ∧
    ∀ i, pace.live i → ∀ τ ≤ s.db.now, Held (sites i).lease τ s.db → Held (sites i).lease τ t.db

section Advances

variable {o : Overlay} {sites : ι → Site} {pace : Pace ι} {E A : ℤ} {s t u : State ι}

theorem Advances.refl (s : State ι) : Advances o sites pace s s :=
  fun hs => ⟨hs, le_rfl, fun _ _ _ _ h => h⟩

theorem Advances.trans (s t u : State ι) (hst : Advances o sites pace s t)
    (htu : Advances o sites pace t u) : Advances o sites pace s u := by
  intro hs
  obtain ⟨ht, hnow, hheld⟩ := hst hs
  obtain ⟨hu, hnow', hheld'⟩ := htu ht
  exact ⟨hu, hnow.trans hnow', fun i hi τ hτ h => hheld' i hi τ (hτ.trans hnow) (hheld i hi τ hτ h)⟩

theorem Kept.unexpired (h : Kept o sites pace s) (hpace : pace.Suits sites E) :
    Unexpired (o.controller A E) (pace.tenants sites) s.db := by
  rintro l ⟨i, hi, rfl⟩
  obtain ⟨t, ht, hheld, hslack⟩ := h.renewed i hi
  have htimely := (h.timely i hi).2
  have hexp := hpace.expiration i hi
  refine ⟨t, ht, hheld, ?_⟩
  change s.db.now < t + E
  simp only [second] at hslack hexp
  omega

theorem Kept.statement (h : Kept o sites pace s) {q : Statement} {db : Database}
    (heffect : Effect s.db q db) (hrows : AllRows (Placed o sites) db)
    (htenants : Unexpired (o.controller A E) (pace.tenants sites) db) :
    Advances o sites pace s { s with db := db } := by
  have hnow := heffect.now_eq
  have hheld : ∀ i, pace.live i → ∀ τ ≤ s.db.now, Held (sites i).lease τ s.db →
      Held (sites i).lease τ db := by
    intro i hi τ hτ hτheld
    obtain ⟨t, -, ⟨r, hr, hl, -⟩, -⟩ := htenants _ ⟨i, hi, rfl⟩
    exact heffect.held hτheld hτ ⟨r, hr, hl⟩
  refine fun _ => ⟨⟨hrows, fun i hi => ?_, fun i hi => ?_⟩, hnow.ge, hheld⟩
  · change s.fired i ≤ db.now ∧ db.now ≤ s.fired i + pace.period
    rw [hnow]
    exact h.timely i hi
  · obtain ⟨t, ht, htheld, hslack⟩ := h.renewed i hi
    exact ⟨t, hnow.symm ▸ ht, hheld i hi t ht htheld, hslack⟩

end Advances

abbrev Relying (o : Overlay) (sites : ι → Site) (pace : Pace ι) :
    Option ι → State ι → State ι → Prop :=
  Relies (Advances o sites pace) fun i s => s.fired i

abbrev Keeping (o : Overlay) (sites : ι → Site) (pace : Pace ι) :
    Option ι → State ι → State ι → Prop :=
  Guarantees (Advances o sites pace) fun i s => s.fired i

theorem Relying.fired_eq {o : Overlay} {sites : ι → Site} {pace : Pace ι} {i : ι} {s t : State ι}
    (h : Relying o sites pace (some i) s t) : t.fired i = s.fired i := h.2 i rfl

/-- The lease was renewed at `t` or later, at most a period before the detector was told. -/
structure Tracks (sites : ι → Site) (pace : Pace ι) (i : ι) (d : GracefulDetector) (t : ℤ)
    (s : State ι) : Prop where
  grace : d.graceDuration = (sites i).detector.graceDuration
  past : t ≤ s.db.now
  held : Held (sites i).lease t s.db
  told : d.lastSuccessTime ≤ second * (t + pace.period) + pace.offset i + pace.drift

section Tracks

variable {o : Overlay} {sites : ι → Site} {pace : Pace ι} {i : ι} {s : State ι}

theorem Tracks.stable {d : GracefulDetector} {τ : ℤ} {t : State ι} (h : Tracks sites pace i d τ s)
    (hi : pace.live i) (hs : Kept o sites pace s) (hst : Advances o sites pace s t) :
    Tracks sites pace i d τ t := by
  obtain ⟨-, hnow, hheld⟩ := hst hs
  exact ⟨h.grace, h.past.trans hnow, hheld i hi τ h.past h.held, h.told⟩

def Tended (sites : ι → Site) (pace : Pace ι) (i : ι) (d : GracefulDetector) (s : State ι) : Prop :=
  pace.live i → ∃ t, Tracks sites pace i d t s ∧
    second * s.fired i < second * (t + pace.period) + (sites i).grace + pace.drift

theorem Tended.stable {d : GracefulDetector} {t : State ι} (h : Tended sites pace i d s)
    (hs : Kept o sites pace s) (hst : Relying o sites pace (some i) s t) :
    Tended sites pace i d t := by
  intro hi
  obtain ⟨τ, htracks, hslack⟩ := h hi
  refine ⟨τ, htracks.stable hi hs hst.1, ?_⟩
  rw [Relying.fired_eq hst]
  exact hslack

end Tracks

theorem lt_of_not_isFatal {d : GracefulDetector} {err : ClientError} {now : ℤ}
    (h : ¬ d.isFatal err now = true) (hgrace : 0 < d.graceDuration.nanoseconds) :
    now < d.lastSuccessTime + d.graceDuration.nanoseconds := by
  cases err with
  | nonRetriable text => exact absurd rfl h
  | json err =>
    have hlt : (timeSub now d.lastSuccessTime).nanoseconds < d.graceDuration.nanoseconds := by
      by_contra hge
      exact h (decide_eq_true (not_lt.mp hge))
    have hrange := d.graceDuration.range
    simp only [timeSub] at hlt
    omega

def renewal (l : Lease) : Entry ι :=
  ⟨.wire (.statement (.renewLeaseForUnderlayIP l.underlayIP)), .ok ()⟩

theorem earns_renewal {jsonError : GoString → DecodeError → String} {c : LeaseController}
    (l : Lease) (history : List (Entry ι)) :
    (request wire jsonError c (.renewSubnetLease l)).Earns (fun later res =>
      res = .ok () → renewal l ∈ later) history := by
  have hop : ∀ (draws : ℕ → Draw) (history : List (Sigma Reply)),
      ((ClientCall.renewSubnetLease l).operation c draws).Earns (fun history res => ∀ _ : Unit,
        res = .ok () → ∃ e ∈ history, e = ⟨.renewLeaseForUnderlayIP l.underlayIP, .ok ()⟩)
        history := by
    intro draws history
    refine (earns_renewSubnetLease l history).bind fun res later hres _ hok => ?_
    exact ⟨_, (hres (eq_ok_of_renewed hok)).mem, rfl⟩
  refine (earns_request wire jsonError c hop (fun err _ h => not_renewed_of_error err h)
    history).mono fun later res hlater hok => ?_
  obtain ⟨e, he, s, r, rfl, hA⟩ := hlater () hok
  cases hA
  exact he

section Programs

variable [DecidableEq ι] {o : Overlay} {sites : ι → Site} {pace : Pace ι} {owner : Option ι} {i : ι}
  {s : State ι} {network : Verdict → Prop} {allowed : Choice → Prop} {A E : ℤ}
  {jsonError : GoString → DecodeError → String}

theorem keeping_request (hpace : pace.Suits sites E) {q : ClientCall}
    (hfits : q.Fits (o.controller A E) (Placed o sites)) (hspares : q.Spares (pace.tenants sites))
    (hs : Kept o sites pace s) :
    (request wire jsonError (o.controller A E) q).Guarded fleetExec
      (fun ch => Permits network allowed ch.wire ∧ pace.Allows ch) (Relying o sites pace owner)
      (Keeping o sites pace none)
      (fun res t => q.Respects (Placed o sites) (pace.tenants sites) res ∧
        Relying o sites pace owner s t) s := by
  have hop : ∀ draws, (q.operation (o.controller A E) draws).Safe exec allowed
      (fun db => AllRows (Placed o sites) db ∧
        Unexpired (o.controller A E) (pace.tenants sites) db)
      (q.Respects (Placed o sites) (pace.tenants sites)) :=
    ClientCall.safe_unexpired hfits hspares fun l hl => hl.1.isMember
  have hrequest : (request wire jsonError (o.controller A E) q).Guarded fleetExec
      (fun ch => Permits network allowed ch.wire ∧ pace.Allows ch) (Relying o sites pace owner)
      (Keeping o sites pace none) _ s :=
    onWire.guarded (J := Kept o sites pace)
      (q.safe_through jsonError network hop (q.respects_report _ _)) (fun _ hch => hch.1)
      (fun _ _ htu ht => (htu.1 ht).1) (fun _ ht => ⟨ht.rows, ht.unexpired hpace⟩)
      (fun t ch w ht hnext => by
        obtain ⟨q, heffect⟩ := wireExec_effect ch t.db w
        have hmove := ht.statement heffect hnext.1 hnext.2
        exact ⟨(hmove ht).1, hmove, fun _ _ => rfl⟩) hs
  refine (hrequest.reaches (Relies.trans Advances.trans) (fun _ _ hst => hst.relies (.none_left _))
    (Relies.refl Advances.refl s)).mono fun res t hpost => ⟨hpost.1.1, hpost.2⟩

/-- A renewal that a live cell is told of was carried out after its timer had fired. -/
theorem keeping_renewal (hpace : pace.Suits sites E) (hlease : Placed o sites (sites i).lease)
    (hs : Kept o sites pace s) :
    (request wire jsonError (o.controller A E) (.renewSubnetLease (sites i).lease)).Guarded
      fleetExec (fun ch => Permits network allowed ch.wire ∧ pace.Allows ch)
      (Relying o sites pace (some i)) (Keeping o sites pace none)
      (fun res t => Relying o sites pace (some i) s t ∧
        (pace.live i → res = .ok () → Held (sites i).lease (s.fired i) t.db)) s := by
  have hrequest :
      (request wire jsonError (o.controller A E) (.renewSubnetLease (sites i).lease)).Guarded
      fleetExec (fun ch => Permits network allowed ch.wire ∧ pace.Allows ch)
      (Relying o sites pace (some i)) (Keeping o sites pace none) _ s :=
    keeping_request hpace (fun _ => hlease) trivial hs
  by_cases hi : pace.live i
  · have hmove : ∀ t u, Relying o sites pace (some i) t u →
        Kept o sites pace t ∧ t.fired i = s.fired i →
        (Kept o sites pace u ∧ u.fired i = s.fired i) ∧ ∀ e : Entry ι,
          (e = renewal (sites i).lease → Held (sites i).lease (s.fired i) t.db) →
          e = renewal (sites i).lease → Held (sites i).lease (s.fired i) u.db := by
      rintro t u htu ⟨ht, hfired⟩
      obtain ⟨hu, -, hheld⟩ := htu.1 ht
      refine ⟨⟨hu, (Relying.fired_eq htu).trans hfired⟩, fun e he heq => ?_⟩
      exact hheld i hi _ (hfired ▸ (ht.timely i hi).1) (he heq)
    refine (hrequest.recall
      (W := fun e t => e = renewal (sites i).lease → Held (sites i).lease (s.fired i) t.db)
      (I := fun t => Kept o sites pace t ∧ t.fired i = s.fired i) ?_ hmove
      (fun t u htu => hmove t u (htu.relies (.none_left _))) (earns_renewal _ []) ⟨hs, rfl⟩
      (fun e he => absurd he List.not_mem_nil)).mono ?_
    · rintro c ch t - ⟨ht, hfired⟩ he
      cases (Sigma.mk.inj he).1
      have hok := eq_of_heq (Sigma.mk.inj he).2
      obtain ⟨τ, -, ⟨r, hr, hl, -⟩, -⟩ := ht.renewed i hi
      obtain ⟨r', hr', hl', hle⟩ := held_of_renewed hok ⟨r, hr, hl⟩
      have htimely := (ht.timely i hi).1
      exact ⟨r', hr', hl', by omega⟩
    · rintro res t ⟨⟨-, hst⟩, -, later, hlater, hheld⟩
      exact ⟨hst, fun _ hok => hheld _ (hlater hok) rfl⟩
  · exact hrequest.mono fun res t hpost => ⟨hpost.2, fun h => absurd h hi⟩

theorem Keeping.weaken {α : Type} {P : α → State ι → Prop} {p : FleetProgram ι α}
    {R : State ι → State ι → Prop}
    (h : p.Guarded fleetExec (fun ch => Permits network allowed ch.wire ∧ pace.Allows ch) R
      (Keeping o sites pace none) P s) :
    p.Guarded fleetExec (fun ch => Permits network allowed ch.wire ∧ pace.Allows ch) R
      (Keeping o sites pace owner) P s :=
  Program.Guarded.weaken (fun _ _ => id) (fun _ _ hst => hst.of_none) h

theorem keeping_clock (hs : Kept o sites pace s) :
    (clock i).Guarded fleetExec (fun ch => Permits network allowed ch.wire ∧ pace.Allows ch)
      (Relying o sites pace (some i)) (Keeping o sites pace (some i))
      (fun now t => Relying o sites pace (some i) s t ∧ (pace.live i →
        second * s.fired i + pace.offset i ≤ now ∧
          now ≤ second * (s.fired i + pace.period) + pace.offset i + pace.drift)) s := by
  intro t ch hst hch
  refine ⟨⟨Advances.refl t, fun _ _ => rfl⟩, fun u htu =>
    ⟨Relies.trans Advances.trans _ _ _ hst htu, fun hi => ?_⟩⟩
  obtain ⟨hlow, hhigh⟩ := (hst.1 hs).1.timely i hi
  obtain ⟨hahead, hbehind⟩ := hch.2 i hi
  rw [Relying.fired_eq hst] at hlow hhigh
  change second * s.fired i + pace.offset i ≤ second * t.db.now + ch.ahead i ∧
    second * t.db.now + ch.ahead i ≤ second * (s.fired i + pace.period) + pace.offset i + pace.drift
  simp only [second]
  omega

theorem keeping_netlink {α : Type}
    (p : Program NetlinkCall (fun q => Except String (Daemon.Answer q)) α) :
    (p.embed (netlinkOf i)).Guarded fleetExec
      (fun ch => Permits network allowed ch.wire ∧ pace.Allows ch) (Relying o sites pace (some i))
      (Keeping o sites pace none) (fun _ t => Relying o sites pace (some i) s t) s := by
  have hany : ∀ s, (p.embed (netlinkOf i)).Guarded fleetExec
      (fun ch => Permits network allowed ch.wire ∧ pace.Allows ch) (Relying o sites pace (some i))
      (Keeping o sites pace none) (fun _ _ => True) s := by
    induction p with
    | done a => exact fun _ _ _ => trivial
    | call q next ih =>
      intro s t ch _ _
      exact ⟨⟨fun ht => ⟨⟨ht.rows, ht.timely, ht.renewed⟩, le_rfl, fun _ _ _ _ h => h⟩,
        fun _ _ => rfl⟩, ih _ _⟩
  exact ((hany s).reaches (Relies.trans Advances.trans) (fun _ _ hst => hst.relies (.none_left _))
    (Relies.refl Advances.refl s)).mono fun _ _ hpost => hpost.2

theorem keeping_doCycle (hpace : pace.Suits sites E) (hlease : Placed o sites (sites i).lease)
    (d : GracefulDetector) (hs : Kept o sites pace s)
    (hd : pace.live i → ∃ t, Tracks sites pace i d t s) :
    (doCycle jsonError (o.controller A E) i (sites i).lease (sites i).converger d).Guarded fleetExec
      (fun ch => Permits network allowed ch.wire ∧ pace.Allows ch) (Relying o sites pace (some i))
      (Keeping o sites pace (some i))
      (fun outcome t => Kept o sites pace t ∧
        ((∀ text, outcome.1 ≠ .error (.fatal text)) → Tended sites pace i outcome.2 t)) s := by
  have hdone : ∀ {outcome : Except CycleError (List Lease) × GracefulDetector} {s : State ι},
      Kept o sites pace s →
      ((∀ text, outcome.1 ≠ .error (.fatal text)) → Tended sites pace i outcome.2 s) →
      (Program.done outcome : FleetProgram ι _).Guarded fleetExec
        (fun ch => Permits network allowed ch.wire ∧ pace.Allows ch) (Relying o sites pace (some i))
        (Keeping o sites pace (some i))
        (fun outcome t => Kept o sites pace t ∧
          ((∀ text, outcome.1 ≠ .error (.fatal text)) → Tended sites pace i outcome.2 t)) s :=
    fun hs h t hst => ⟨(hst.1 hs).1, fun hfatal => (h hfatal).stable hs hst⟩
  refine (Keeping.weaken (keeping_renewal hpace hlease hs)).bind (Relies.refl Advances.refl)
    fun res s₁ hrenewed => ?_
  obtain ⟨hst, hheld⟩ := hrenewed
  have hs₁ := (hst.1 hs).1
  refine (keeping_clock hs₁).bind (Relies.refl Advances.refl) fun now s₂ ⟨hst₂, hnow⟩ => ?_
  have hs₂ := (hst₂.1 hs₁).1
  have hfired : s₂.fired i = s.fired i := (Relying.fired_eq hst₂).trans (Relying.fired_eq hst)
  cases res with
  | error err =>
    dsimp only
    split_ifs with hfatal
    · exact hdone hs₂ fun h => absurd rfl (h _)
    · refine hdone hs₂ fun _ hi => ?_
      obtain ⟨τ, htracks⟩ := hd hi
      have htracks := (htracks.stable hi hs hst.1).stable hi hs₁ hst₂.1
      refine ⟨τ, htracks, ?_⟩
      have hlow := (hnow hi).1
      have htold := htracks.told
      have hgrace : d.graceDuration.nanoseconds = (sites i).grace := by
        rw [htracks.grace, Site.grace]
      have hlt := lt_of_not_isFatal hfatal (hgrace ▸ hpace.positive i hi)
      rw [Relying.fired_eq hst₂]
      dsimp only [second] at hlow htold ⊢
      omega
  | ok _ =>
    have htended : Tended sites pace i (d.gotSuccess now) s₂ := by
      intro hi
      obtain ⟨τ, htracks⟩ := hd hi
      have htimely := (hs₁.timely i hi).1
      rw [Relying.fired_eq hst] at htimely
      have htold := (hnow hi).2
      rw [Relying.fired_eq hst] at htold
      obtain ⟨-, hle, hkeep⟩ := hst₂.1 hs₁
      refine ⟨s.fired i,
        ⟨htracks.grace, htimely.trans hle, hkeep i hi _ htimely (hheld hi rfl), htold⟩, ?_⟩
      have hpositive := hpace.positive i hi
      have hperiod := hpace.period
      have hdrift := hpace.drift
      rw [hfired]
      dsimp only [second]
      omega
    refine (Keeping.weaken (keeping_request (q := .getActiveLeases) hpace trivial trivial hs₂)).bind
      (Relies.refl Advances.refl) fun listing s₃ ⟨_, hst₃⟩ => ?_
    have hs₃ := (hst₃.1 hs₂).1
    cases listing with
    | error err => exact hdone hs₃ fun _ => htended.stable hs₂ hst₃
    | ok leases =>
      refine (Keeping.weaken (keeping_netlink _)).bind (Relies.refl Advances.refl)
        fun converged s₄ hst₄ => ?_
      have hs₄ := (hst₄.1 hs₃).1
      have htended₄ := (htended.stable hs₂ hst₃).stable hs₃ hst₄
      cases converged with
      | error err => exact hdone hs₄ fun _ => htended₄
      | ok _ => exact hdone hs₄ fun _ => htended₄

theorem keeping_wait (hpace : pace.Suits sites E) {d : GracefulDetector} (hs : Kept o sites pace s)
    (hd : Tended sites pace i d s) :
    (wait i).Guarded fleetExec (fun ch => Permits network allowed ch.wire ∧ pace.Allows ch)
      (Relying o sites pace (some i)) (Keeping o sites pace (some i))
      (fun _ t => Kept o sites pace t ∧ (pace.live i → ∃ τ, Tracks sites pace i d τ t)) s := by
  intro t ch hst _
  have ht := (hst.1 hs).1
  have htended := hd.stable hs hst
  have hnext : Kept o sites pace { t with fired := Function.update t.fired i t.db.now } := by
    refine ⟨ht.rows, fun j hj => ?_, fun j hj => ?_⟩
    · by_cases hji : j = i
      · subst hji
        dsimp only
        rw [Function.update_self]
        have hperiod := hpace.period
        omega
      · dsimp only
        rw [Function.update_of_ne hji]
        exact ht.timely j hj
    · by_cases hji : j = i
      · subst hji
        obtain ⟨τ, htracks, hslack⟩ := htended hj
        refine ⟨τ, htracks.past, htracks.held, ?_⟩
        dsimp only
        rw [Function.update_self]
        have htimely := (ht.timely j hj).2
        dsimp only [second] at hslack ⊢
        omega
      · dsimp only
        rw [Function.update_of_ne hji]
        exact ht.renewed j hj
  have hmove : Advances o sites pace t { t with fired := Function.update t.fired i t.db.now } :=
    fun _ => ⟨hnext, le_rfl, fun _ _ _ _ h => h⟩
  refine ⟨⟨hmove, fun j hj => Function.update_of_ne (fun h => hj (congrArg some h.symm)) _ _⟩,
    fun u htu => ⟨(htu.1 hnext).1, fun hi => ?_⟩⟩
  obtain ⟨τ, htracks, -⟩ := htended hi
  exact ⟨τ, htracks.stable hi ht (Advances.trans _ _ _ hmove htu.1)⟩

theorem keeping_poll (hpace : pace.Suits sites E) (hlease : Placed o sites (sites i).lease)
    (turns : ℕ) (d : GracefulDetector) (hs : Kept o sites pace s)
    (hd : pace.live i → ∃ t, Tracks sites pace i d t s) :
    (poll jsonError (o.controller A E) i (sites i).lease (sites i).converger turns d).Guarded
      fleetExec (fun ch => Permits network allowed ch.wire ∧ pace.Allows ch)
      (Relying o sites pace (some i)) (Keeping o sites pace (some i)) (fun _ _ => True) s := by
  have hnotFatal : ∀ res : Except CycleError (List Lease),
      runFunction (res.map fun _ => ()) = .ok () → ∀ text, res ≠ .error (.fatal text) := by
    rintro res hok text rfl
    cases hok
  induction turns generalizing d s with
  | zero =>
    rw [poll]
    refine (keeping_doCycle hpace hlease d hs hd).bind (Relies.refl Advances.refl)
      fun outcome s₁ _ => ?_
    cases runFunction (outcome.1.map fun _ => ()) with
    | error text => exact fun _ _ => trivial
    | ok _ => exact fun _ _ => trivial
  | succ turns ih =>
    rw [poll]
    refine (keeping_doCycle hpace hlease d hs hd).bind (Relies.refl Advances.refl)
      fun outcome s₁ hcycle => ?_
    obtain ⟨hs₁, htended⟩ := hcycle
    cases hrun : runFunction (outcome.1.map fun _ => ()) with
    | error text => exact fun _ _ => trivial
    | ok _ =>
      exact (keeping_wait hpace hs₁ (htended (hnotFatal _ hrun))).bind (Relies.refl Advances.refl)
        fun _ s₂ hwaited => ih outcome.2 hwaited.1 hwaited.2

end Programs

def Pace.Started (pace : Pace ι) (sites : ι → Site) (db : Database) : Prop :=
  ∀ i, pace.live i → ∃ t ≤ db.now, Held (sites i).lease t db ∧ db.now ≤ t + pace.period ∧
    (sites i).detector.lastSuccessTime ≤ second * db.now + pace.offset i + pace.drift

theorem kept_launch {o : Overlay} {E : ℤ} {sites : ι → Site} {pace : Pace ι}
    (hpace : pace.Suits sites E) {db : Database} (hdb : AllRows (Placed o sites) db)
    (hstarted : pace.Started sites db) :
    Kept o sites pace (atStart sites db) := by
  have hperiod := hpace.period
  have hdrift := hpace.drift
  refine ⟨hdb, fun i _ => ⟨le_rfl, ?_⟩, fun i hi => ?_⟩
  · change db.now ≤ db.now + pace.period
    omega
  · obtain ⟨t, ht, hheld, hrecent, -⟩ := hstarted i hi
    have hpositive := hpace.positive i hi
    refine ⟨t, ht, hheld, ?_⟩
    dsimp only [atStart, second]
    omega

section Runs

variable [DecidableEq ι] {jsonError : GoString → DecodeError → String} {o : Overlay} {A E : ℤ}
  {sites : ι → Site} {pace : Pace ι} {network : Verdict → Prop} {allowed : Choice → Prop}

theorem keeping_job (hpace : pace.Suits sites E) (hsites : ∀ i, Placed o sites (sites i).lease)
    {job : Job ι ℕ} (hfits : Fits o sites job)
    (hspares : ∀ q, job = .client q → q.Spares (pace.tenants sites)) {db : Database}
    (hdb : AllRows (Placed o sites) db) (hstarted : pace.Started sites db) :
    (job.body wire jsonError (o.controller A E) (daemon jsonError (o.controller A E) sites)).Guarded
      fleetExec (fun ch => Permits network allowed ch.wire ∧ pace.Allows ch)
      (Relying o sites pace job.owner) (Keeping o sites pace job.owner)
      (fun res _ => ∀ q result, res = ⟨.client q, result⟩ →
        q.Respects (Placed o sites) (pace.tenants sites) result) (atStart sites db) := by
  have hs := kept_launch hpace hdb hstarted
  refine Job.guarded_body (Relies.refl Advances.refl) (fun q hq => ?_) fun i turns hi => ?_
  · subst hq
    refine (keeping_request hpace (fits_client hfits) (hspares q rfl) hs).mono
      fun res _ hres t _ q' result heq => ?_
    cases heq
    exact hres.1
  · subst hi
    refine (keeping_poll hpace (hsites i) turns _ hs fun hi => ?_).mono
      fun _ _ _ _ _ _ _ heq => by cases heq
    obtain ⟨t, ht, hheld, hrecent, htold⟩ := hstarted i hi
    refine ⟨t, rfl, ht, hheld, ?_⟩
    dsimp only [second] at htold ⊢
    omega

theorem advances_drift {s t : State ι}
    (hst : (punctual jsonError (o.controller A E) sites network allowed pace).drift s t) :
    Advances o sites pace s t := by
  obtain ⟨-, hfired, ⟨htable, hnow⟩, hpunctual⟩ := hst
  have hheld : ∀ i, ∀ τ, Held (sites i).lease τ s.db → Held (sites i).lease τ t.db := by
    rintro i τ ⟨r, hr, h⟩
    exact ⟨r, htable ▸ hr, h⟩
  refine fun hs => ⟨⟨fun r hr => hs.rows r (htable ▸ hr), fun i hi => ?_, fun i hi => ?_⟩, hnow,
    fun i _ τ _ h => hheld i τ h⟩
  · rw [hfired]
    exact ⟨(hs.timely i hi).1.trans hnow, hpunctual i hi⟩
  · obtain ⟨τ, hτ, h, hslack⟩ := hs.renewed i hi
    rw [hfired]
    exact ⟨τ, hτ.trans hnow, hheld i τ h, hslack⟩

theorem run_kept (hpace : pace.Suits sites E) (hsites : ∀ i, Placed o sites (sites i).lease)
    {jobs : List (Job ι ℕ)} (hjobs : ∀ job ∈ jobs, Fits o sites job)
    (hspares : ∀ q, Job.client q ∈ jobs → q.Spares (pace.tenants sites))
    (hdaemons : jobs.Pairwise Job.Apart) {db : Database} (hdb : AllRows (Placed o sites) db)
    (hstarted : pace.Started sites db) {ls : List (Label (Job ι ℕ) (State ι) (FleetChoice ι))}
    {sys : FleetSystem ι}
    (hr : (punctual jsonError (o.controller A E) sites network allowed pace).RunOf jobs
      (atStart sites db) ls sys) :
    Kept o sites pace sys.shared ∧ ∀ th ∈ sys.threads, ∀ res, th.program = .done res →
      ∀ q result, res = ⟨.client q, result⟩ →
        q.Respects (Placed o sites) (pace.tenants sites) result := by
  obtain ⟨hadvances, hfinished⟩ := Resumption.Run.owned (N := Advances o sites pace) Job.owner
    (P := fun _ res _ => ∀ q result, res = ⟨.client q, result⟩ →
      q.Respects (Placed o sites) (pace.tenants sites) result)
    Advances.refl Advances.trans (fun _ _ h => h)
    (fun s t hst => ⟨advances_drift hst, fun i => congrFun hst.2.1 i⟩) hr hdaemons
    fun job hjob => keeping_job hpace hsites (hjobs job hjob)
      (fun q hq => hspares q (hq ▸ hjob)) hdb hstarted
  exact ⟨(hadvances (kept_launch hpace hdb hstarted)).1, hfinished⟩

end Runs

/-- While the daemon of a cell runs, its lease is in the table and active, no other row and no lease
that a client is given overlaps with it: whatever fails, however the statements of the controllers
interleave, and whatever the clock of the cell shows, if it goes at the right pace. -/
theorem live_lease_exclusive [DecidableEq ι] (jsonError : GoString → DecodeError → String)
    (o : Overlay) (A E : ℤ) {sites : ι → Site} {pace : Pace ι} {network : Verdict → Prop}
    {allowed : Choice → Prop} (hpace : pace.Suits sites E)
    (hsites : ∀ i, Placed o sites (sites i).lease) {jobs : List (Job ι ℕ)}
    (hjobs : ∀ job ∈ jobs, Fits o sites job)
    (hspares : ∀ q, Job.client q ∈ jobs → q.Spares (pace.tenants sites))
    (hdaemons : jobs.Pairwise Job.Apart) {db : Database} (hdb : AllRows (Placed o sites) db)
    (hstarted : pace.Started sites db) {ls : List (Label (Job ι ℕ) (State ι) (FleetChoice ι))}
    {sys : FleetSystem ι}
    (hr : (punctual jsonError (o.controller A E) sites network allowed pace).RunOf jobs
      (atStart sites db) ls sys) {i : ι} (hi : pace.live i) :
    (∃ r ∈ sys.shared.db.table.rows, r.toLease = (sites i).lease ∧
      sys.shared.db.now < r.lastRenewedAt + E) ∧
    (∀ ch, (sites i).lease ∈ allActive ch sys.shared.db E) ∧
    (∀ r ∈ sys.shared.db.table.rows, r.toLease ≠ (sites i).lease →
      rangesDisjoint r.overlaySubnet (sites i).lease.overlaySubnet) ∧
    ∀ th ∈ sys.threads, ∀ u single l,
      th.program = .done ⟨.client (.acquireLease u single), .ok l⟩ → l ≠ (sites i).lease →
        rangesDisjoint l.overlaySubnet (sites i).lease.overlaySubnet := by
  obtain ⟨hkept, hgiven⟩ := run_kept hpace hsites hjobs hspares hdaemons hdb hstarted hr
  have htenants : Unexpired (o.controller A E) (pace.tenants sites) sys.shared.db :=
    hkept.unexpired hpace
  have hrow : ∃ r ∈ sys.shared.db.table.rows, r.toLease = (sites i).lease ∧
      sys.shared.db.now < r.lastRenewedAt + E := by
    obtain ⟨t, -, ⟨r, hr, hl, hle⟩, hlive⟩ := htenants _ ⟨i, hi, rfl⟩
    have hlive : sys.shared.db.now < t + E := hlive
    exact ⟨r, hr, hl, by omega⟩
  refine ⟨hrow, fun ch => ?_, fun r hr hne => ?_, fun th hth u single l hdone hne => ?_⟩
  · obtain ⟨r, hr, hl, hlive⟩ := hrow
    exact mem_leasesWhere.mpr ⟨r, hr, decide_eq_true hlive, hl⟩
  · exact (hkept.rows r hr).1.rangesDisjoint (hsites i).1 (htenants.apart hr ⟨i, hi, rfl⟩ hne)
  · obtain ⟨hplaced, hother⟩ := hgiven th hth _ hdone _ _ rfl l rfl
    exact hplaced.1.rangesDisjoint (hsites i).1 (hother _ ⟨i, hi, rfl⟩ hne)

def smallPace : Pace Unit := ⟨fun _ => True, 1, fun _ => 0, 0⟩

theorem smallPace_suits : smallPace.Suits smallSite 5 :=
  ⟨by decide, by decide, fun _ _ => show (0 : ℤ) < 10 by decide,
    fun _ _ => show (10 : ℤ) + 0 + 3 * (second * 1) ≤ second * 5 by decide⟩

def smallPunctual : Machine (FleetCall Unit) FleetReply (Outcome Unit) (Job Unit ℕ) (State Unit)
    (FleetChoice Unit) :=
  punctual (fun _ _ => "") (Overlay.small.controller 2 5) smallSite (fun _ => True) Leaser.faultless
    smallPace

theorem live_lease_exclusive_small : ∃ ls sys,
    smallPunctual.RunOf [.cell () 1] (atStart smallSite bothHeld) ls sys ∧
    (∃ th ∈ sys.threads, ∃ res, th.program = .done res) ∧
    ∀ ch, ⟨"10.0.0.1", "10.255.0.4/30", "ee:ee:0a:ff:00:04"⟩ ∈ allActive ch sys.shared.db 5 := by
  have hstarted : smallPace.Started smallSite bothHeld := fun _ _ =>
    ⟨0, le_rfl, ⟨_, List.mem_cons_self, rfl, le_rfl⟩, by decide, le_rfl⟩
  have hlater : smallPunctual.RunOf [.cell () 1] (atStart smallSite bothHeld) _
      ⟨⟨{ bothHeld with now := 1 }, fun i => (smallSite i).initial, fun _ => 0⟩,
        [] ++ [⟨.cell () 1, [], smallPunctual.body (.cell () 1)⟩]⟩ :=
    .snoc (.nil _) (.drift ⟨rfl, rfl, ⟨rfl, by decide⟩, fun _ _ => le_rfl⟩) trivial
  have hquiet : smallPunctual.allowed quietChoice :=
    ⟨⟨trivial, rfl⟩, fun _ _ => ⟨le_rfl, le_rfl⟩⟩
  obtain ⟨res, t, hpoll⟩ := Program.exists_runs hquiet (smallPunctual.body (.cell () 1))
    (⟨{ bothHeld with now := 1 }, fun i => (smallSite i).initial, fun _ => 0⟩ : State Unit)
  obtain ⟨ls, th, hrun, hdone⟩ := hlater.finish hpoll
  have hspares : ∀ q, Job.client q ∈ [Job.cell () 1] → q.Spares (smallPace.tenants smallSite) := by
    simp
  exact ⟨ls, _, hrun, ⟨th, List.mem_append_right _ (List.mem_singleton_self _), res, hdone⟩,
    (live_lease_exclusive (fun _ _ => "") Overlay.small 2 5 smallPace_suits
      (fun i => (sited_small i).lease) (fits_small 1) hspares (List.pairwise_singleton _ _)
      placed_small hstarted hrun (i := ()) trivial).2.1⟩

end Silk.Fleet
