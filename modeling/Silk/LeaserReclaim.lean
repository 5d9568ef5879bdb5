import Silk.LeaserExclusivity

/-!
# Reclaiming under interleaving

The reclaim path selects the oldest expired row with one statement and deletes
it, by underlay address, with another. A renewal or an insert for that host in
between makes the delete remove a live row. Without such a statement in between
the delete removes only the expired row that was selected.
-/

namespace Silk.Leaser

open GoNet Controller Resumption

def Selects (c : LeaseController) (last : Option (Sigma Reply)) (l : Lease) : Prop :=
  last = some ⟨.oldestExpiredBlockSubnet c.leaseExpirationSeconds, .ok (some l)⟩ ∨
    last = some ⟨.oldestExpiredSingleIP c.leaseExpirationSeconds, .ok (some l)⟩

/-- An acquire deletes its own row right after looking it up, and any other row
right after selecting it. -/
def DeleteFollows (c : LeaseController) (req : Request) (last : Option (Sigma Reply))
    (q : Statement) : Prop :=
  ∀ draws u single v, req = .acquire draws u single → q = .deleteEntry v →
    (v = u ∧ ∃ reply, last = some ⟨.leaseForUnderlayIP u, reply⟩) ∨
      ∃ l, Selects c last l ∧ l.underlayIP = v

section Follows

variable {c : LeaseController} {req : Request} {last : Option (Sigma Reply)}

theorem DeleteFollows.of_ne {q : Statement} (h : ∀ v, q ≠ .deleteEntry v) :
    DeleteFollows c req last q := fun _ _ _ v _ hq => absurd hq (h v)

theorem follows_oldestExpired {α : Type} {single : Bool}
    {f : Except Err (Option Lease) → Prog α}
    (hf : ∀ res last, (∀ l, res = .ok (some l) → Selects c last l) →
      (f res).Follows (DeleteFollows c req) last) :
    (DatabaseHandler.oldestExpired single c.leaseExpirationSeconds >>= f).Follows
      (DeleteFollows c req) last := by
  cases single with
  | false =>
    refine ⟨.of_ne (by simp), fun res => hf res _ fun l hl => Or.inl ?_⟩
    subst hl
    rfl
  | true =>
    refine ⟨.of_ne (by simp), fun res => hf res _ fun l hl => Or.inr ?_⟩
    subst hl
    rfl

theorem follows_tryAcquireSubnet (draw : Draw) (single : Bool) :
    (c.tryAcquireSubnet draw single).Follows (DeleteFollows c req) last := by
  rw [LeaseController.tryAcquireSubnet, LeaseController.tryAcquireAvailable]
  apply Program.Follows.bind
  · cases single with
    | false => exact ⟨.of_ne (by simp), fun _ => trivial⟩
    | true => exact ⟨.of_ne (by simp), fun _ => trivial⟩
  intro taken last
  rcases taken with err | leases
  · trivial
  dsimp only
  generalize getAvailable draw _ _ = free
  by_cases hne : free ≠ ""
  · rw [if_pos hne]
    trivial
  · rw [if_neg hne]
    apply follows_oldestExpired
    intro oldest last hlast
    rcases oldest with err | _ | l
    · trivial
    · trivial
    · refine ⟨fun _ _ _ v _ hq => ?_, fun res => ?_⟩
      · cases hq
        exact Or.inr ⟨l, hlast l rfl, rfl⟩
      · rcases res with err | _
        · trivial
        · trivial

theorem follows_tryAcquireLease (draw : Draw) (u : String) (single : Bool) :
    (c.tryAcquireLease draw u single).Follows (DeleteFollows c req) last := by
  rw [LeaseController.tryAcquireLease_eq]
  apply (follows_tryAcquireSubnet draw single).bind
  intro res last
  rcases res with err | subnet
  · trivial
  dsimp only
  split_ifs
  · trivial
  rw [LeaseController.addLease]
  cases LeaseController.vtepLease u subnet with
  | error err => trivial
  | ok lease =>
    refine ⟨.of_ne (by simp), fun res => ?_⟩
    rcases res with err | _
    · trivial
    · trivial

theorem follows_attempts (u : String) (single : Bool) (n : ℕ) (draws : ℕ → Draw)
    (result : Except Err (Option Lease)) (last : Option (Sigma Reply)) :
    (c.attempts u single n draws result).Follows (DeleteFollows c req) last := by
  induction n generalizing draws result last with
  | zero => trivial
  | succ n ih =>
    rw [LeaseController.attempts]
    apply (follows_tryAcquireLease (draws 0) u single).bind
    intro res last
    rcases res with err | _ | lease
    · exact ih _ _ _
    · exact ih _ _ _
    · trivial

theorem follows_acquireSubnetLease (draws : ℕ → Draw) (u : String) (single : Bool) :
    (c.acquireSubnetLease draws u single).Follows
      (DeleteFollows c (.acquire draws u single)) last := by
  rw [LeaseController.acquireSubnetLease]
  split_ifs
  · trivial
  refine ⟨.of_ne (by simp), fun found => ?_⟩
  rcases found with err | _ | lease
  · trivial
  · exact follows_attempts _ _ _ _ _ _
  · change Program.Follows _ _ (if _ then _ else _)
    split_ifs
    · trivial
    · refine ⟨fun _ _ _ v hreq hq => ?_, fun res => ?_⟩
      · cases hreq
        cases hq
        exact Or.inl ⟨rfl, _, rfl⟩
      · rcases res with err | _
        · trivial
        · exact follows_attempts _ _ _ _ _ _

theorem follows_serve (req : Request) : (serve c req).Follows (DeleteFollows c req) none := by
  cases req with
  | acquire draws u single =>
    exact (follows_acquireSubnetLease draws u single).bind fun _ _ => trivial
  | release u => exact .of_forall (fun _ _ _ _ _ _ h => nomatch h) _ _
  | renew lease => exact .of_forall (fun _ _ _ _ _ _ h => nomatch h) _ _

end Follows

def EndsRenewed (v : String) (history : List (Sigma Reply)) : Prop :=
  ∃ before t, history = before ++ [⟨.renewLeaseForUnderlayIP v, .ok ()⟩,
    ⟨.lastRenewedAtForUnderlayIP v, .ok t⟩]

theorem EndsRenewed.mem {v : String} {history : List (Sigma Reply)} (h : EndsRenewed v history) :
    ⟨.renewLeaseForUnderlayIP v, .ok ()⟩ ∈ history := by
  obtain ⟨before, t, rfl⟩ := h
  simp

def UpdateEarns (req : Request) (history : List (Sigma Reply)) (res : Response) : Prop :=
  ∀ l, req = .renew l → res = .renewed (.ok ()) → EndsRenewed l.underlayIP history

theorem earns_confirmRenewal (l : Lease) (history : List (Sigma Reply)) :
    (LeaseController.confirmRenewal l).Earns (fun history res => res = .ok () →
      EndsRenewed l.underlayIP history) history := by
  intro renewed
  rcases renewed with err | _
  · exact fun h => by cases h
  · intro last
    rcases last with err | t
    · exact fun h => by cases h
    · exact fun _ => ⟨history, t, List.append_assoc _ _ _⟩

theorem earns_renewSubnetLease (l : Lease) (history : List (Sigma Reply)) :
    (LeaseController.renewSubnetLease l).Earns (fun history res => res = .ok () →
      EndsRenewed l.underlayIP history) history := by
  rw [LeaseController.renewSubnetLease]
  cases validate l with
  | error err => exact fun h => by cases h
  | ok =>
    intro found
    rcases found with err | _ | existing
    · exact fun h => by cases h
    · intro added
      rcases added with err | _
      · exact fun h => by cases h
      · exact earns_confirmRenewal l _
    · change Program.Earns _ _ (if _ then _ else _)
      split_ifs
      · exact fun h => by cases h
      · exact earns_confirmRenewal l _

theorem updateEarns_serve (c : LeaseController) (req : Request) :
    (serve c req).Earns (UpdateEarns req) [] := by
  cases req with
  | acquire draws u single => exact .of_forall (fun _ _ _ h => by cases h) _ _
  | release u => exact .of_forall (fun _ _ _ h => by cases h) _ _
  | renew l =>
    refine (earns_renewSubnetLease l []).bind fun res history hres k hk hok => ?_
    cases hk
    cases hok
    exact hres rfl

/-- The statement leaves a row of the host that was not there: it inserts one or sets its time. -/
def Refreshes (ch : Choice) (db : Database) (q : Statement) (v : String) : Prop :=
  ∃ r ∈ (exec ch db q).2.table.rows, r.underlayIP = v ∧ r ∉ db.table.rows

/-- No statement refreshes the row of a host while an acquire is between
selecting and deleting it. -/
def Undisturbed (c : LeaseController) (sys : Controllers) (label : Label Request Database Choice) :
    Prop :=
  ∀ i ch th q next, label = .statement i ch → sys.threads[i]? = some th →
    th.program = .call q next →
    ∀ th' ∈ sys.threads, ∀ l, Selects c th'.last l → ¬ Refreshes ch sys.shared q l.underlayIP

/-- The clock stands still from the update of a renewal to its return. -/
def Prompt (sys : Controllers) (label : Label Request Database Choice) : Prop :=
  ∀ db, label = .drift db → ∀ th ∈ sys.threads, ∀ v,
    th.last = some ⟨.renewLeaseForUnderlayIP v, .ok ()⟩ → db.now = sys.shared.now

def SelectedExpired (c : LeaseController) (sys : Controllers) : Prop :=
  ∀ th ∈ sys.threads, ∀ l, Selects c th.last l →
    ∀ r ∈ sys.shared.table.rows, r.underlayIP = l.underlayIP →
      r.toLease = l ∧ c.Expired sys.shared r

section Invariant

variable {c : LeaseController} {allowed : Choice → Prop}

theorem exec_selects {ch : Choice} {db : Database} {q : Statement} {l : Lease}
    (h : Selects c (some ⟨q, (exec ch db q).1⟩) l) :
    ∀ r ∈ db.table.rows, r.underlayIP = l.underlayIP → r.toLease = l ∧ c.Expired db r := by
  have hcond : ∃ s ∈ db.table.rows, s.toLease = l ∧ c.Expired db s := by
    rcases h with h | h
    · cases (Sigma.mk.inj (Option.some.inj h)).1
      have hok := eq_of_heq (Sigma.mk.inj (Option.some.inj h)).2
      rw [exec_ok hok] at hok
      obtain ⟨s, hs, hexp, -, hl⟩ := c.expired_of_oldest (fun s => !likeSingleIP s)
        (Except.ok.inj hok)
      exact ⟨s, hs, hl, hexp⟩
    · cases (Sigma.mk.inj (Option.some.inj h)).1
      have hok := eq_of_heq (Sigma.mk.inj (Option.some.inj h)).2
      rw [exec_ok hok] at hok
      obtain ⟨s, hs, hexp, -, hl⟩ := c.expired_of_oldest likeSingleIP (Except.ok.inj hok)
      exact ⟨s, hs, hl, hexp⟩
  intro r hr hu
  obtain ⟨s, hs, rfl, hexp⟩ := hcond
  rw [Table.eq_of_underlayIP hr hs hu]
  exact ⟨rfl, hexp⟩

theorem Selects.reads {q : Statement} {reply : Reply q} {l : Lease}
    (h : Selects c (some ⟨q, reply⟩) l) : q.reads = true := by
  rcases h with h | h
  · cases (Sigma.mk.inj (Option.some.inj h)).1
    rfl
  · cases (Sigma.mk.inj (Option.some.inj h)).1
    rfl

theorem step_selectedExpired {accepts : Controllers → Request → Prop} {a b : Controllers}
    {label : Label Request Database Choice} (ha : SelectedExpired c a)
    (hs : Step (controllers c allowed timePasses accepts) a label b)
    (hcond : Undisturbed c a label) :
    SelectedExpired c b := by
  cases hs with
  | start hacc =>
    intro th hth l hsel
    rcases List.mem_append.mp hth with h | h
    · exact ha th h l hsel
    · rw [List.mem_singleton.mp h] at hsel
      rcases hsel with hsel | hsel
      · cases hsel
      · cases hsel
  | drift hd =>
    obtain ⟨htable, hnow⟩ := hd
    intro th hth l hsel r hr hu
    obtain ⟨hl, hexp⟩ := ha th hth l hsel r (htable ▸ hr) hu
    exact ⟨hl, le_trans hexp hnow⟩
  | @statement i ch th q next hi hp _ =>
    intro th' hth' l hsel r hr hu
    have hrow : r.toLease = l ∧ c.Expired a.shared r := by
      rcases mem_set_cases hth' with rfl | hold
      · rw [Thread.advance_last] at hsel
        change r ∈ (exec ch a.shared q).2.table.rows at hr
        rw [exec_reads ch a.shared hsel.reads] at hr
        exact exec_selects hsel r hr hu
      · have hkept : r ∈ a.shared.table.rows := by
          by_contra hnew
          exact hcond i ch th q next rfl hi hp th' hold l hsel ⟨r, hr, hu, hnew⟩
        exact ha th' hold l hsel r hkept hu
    exact ⟨hrow.1, hrow.2.trans (exec_effect ch a.shared q).now_eq.ge⟩

theorem run_fresh {accepts : Controllers → Request → Prop}
    {cond : Controllers → Label Request Database Choice → Prop} {a b : Controllers}
    {ls : List (Label Request Database Choice)}
    (hr : Run (controllers c allowed timePasses accepts) cond a ls b) {t : ℤ} {v : String}
    (hnow : t ≤ a.shared.now)
    (ha : ∀ r ∈ a.shared.table.rows, r.underlayIP = v → t ≤ r.lastRenewedAt) :
    t ≤ b.shared.now ∧ ∀ r ∈ b.shared.table.rows, r.underlayIP = v → t ≤ r.lastRenewedAt := by
  refine hr.invariant (P := fun sys : Controllers => t ≤ sys.shared.now ∧
    ∀ r ∈ sys.shared.table.rows, r.underlayIP = v → t ≤ r.lastRenewedAt) ?_ ⟨hnow, ha⟩
  intro a label b hP hs _
  cases hs with
  | start hacc => exact hP
  | drift hd =>
    obtain ⟨htable, hle⟩ := hd
    refine ⟨hP.1.trans hle, fun r hr => hP.2 r (htable ▸ hr)⟩
  | @statement i ch th q next hi hp _ =>
    have heff : Effect a.shared q (exec ch a.shared q).2 := exec_effect ch a.shared q
    refine ⟨hP.1.trans heff.now_eq.ge, fun r hr hu => ?_⟩
    rcases heff.row_cases hr with hold | hnew
    · exact hP.2 r hold hu
    · rw [hnew]
      exact hP.1

def UpdatedNow (sys : Controllers) : Prop :=
  ∀ th ∈ sys.threads, ∀ v, th.last = some ⟨.renewLeaseForUnderlayIP v, .ok ()⟩ →
    ∀ r ∈ sys.shared.table.rows, r.underlayIP = v → sys.shared.now ≤ r.lastRenewedAt

theorem exec_updated {ch : Choice} {db : Database} {q : Statement} {v : String}
    (h : (⟨q, (exec ch db q).1⟩ : Sigma Reply) = ⟨.renewLeaseForUnderlayIP v, .ok ()⟩) :
    ∀ r ∈ (exec ch db q).2.table.rows, r.underlayIP = v → db.now ≤ r.lastRenewedAt := by
  cases (Sigma.mk.inj h).1
  have hok := eq_of_heq (Sigma.mk.inj h).2
  rw [exec_ok hok]
  exact fun r hr hu => (Table.lastRenewedAt_of_mem_renew hr hu).ge

theorem step_updatedNow {accepts : Controllers → Request → Prop} {a b : Controllers}
    {label : Label Request Database Choice} (ha : UpdatedNow a)
    (hs : Step (controllers c allowed timePasses accepts) a label b) (hcond : Prompt a label) :
    UpdatedNow b := by
  cases hs with
  | start hacc =>
    intro th hth v hlast
    rcases List.mem_append.mp hth with h | h
    · exact ha th h v hlast
    · rw [List.mem_singleton.mp h] at hlast
      cases hlast
  | @drift db hd =>
    intro th hth v hlast r hr hu
    change db.now ≤ _
    rw [hcond db rfl th hth v hlast]
    exact ha th hth v hlast r (hd.1 ▸ hr) hu
  | @statement i ch th q next hi hp _ =>
    have heff : Effect a.shared q (exec ch a.shared q).2 := exec_effect ch a.shared q
    intro th' hth' v hlast r hr hu
    change (exec ch a.shared q).2.now ≤ _
    rw [heff.now_eq]
    rcases mem_set_cases hth' with rfl | hold
    · rw [Thread.advance_last] at hlast
      exact exec_updated (Option.some.inj hlast) r hr hu
    · rcases heff.row_cases hr with hkept | hnew
      · exact ha th' hold v hlast r hkept hu
      · exact hnew.ge

theorem step_returned {start : Database} {sys sys₁ : Controllers}
    {ls : List (Label Request Database Choice)}
    (hr : Run (controllers c allowed timePasses fun _ _ => True)
      (fun sys label => Undisturbed c sys label ∧ Prompt sys label) ⟨start, []⟩ ls sys)
    {i : ℕ} {ch : Choice}
    (hs : Step (controllers c allowed timePasses fun _ _ => True) sys (.statement i ch) sys₁)
    {th : Client} {lease : Lease} (hi : sys₁.threads[i]? = some th)
    (hreq : th.request = .renew lease)
    (hdone : th.program = .done (.renewed (.ok ()))) :
    ∀ r ∈ sys₁.shared.table.rows, r.underlayIP = lease.underlayIP →
      sys₁.shared.now ≤ r.lastRenewedAt := by
  have hnow : UpdatedNow sys := hr.invariant (fun a l b ha hs hc => step_updatedNow ha hs hc.2)
    fun th hth => absurd hth List.not_mem_nil
  have hstepped : Run (controllers c allowed timePasses fun _ _ => True) (fun _ _ => True)
      ⟨start, []⟩ (ls ++ [.statement i ch]) sys₁ := (hr.mono fun _ _ _ => trivial).snoc hs trivial
  have hearns := hstepped.earns (P := UpdateEarns) (updateEarns_serve c)
    (fun th hth => absurd hth List.not_mem_nil) th (List.mem_of_getElem? hi)
  rw [hdone] at hearns
  obtain ⟨before, t, hhistory⟩ := hearns lease hreq rfl
  cases hs with
  | @statement _ _ th₀ q next hi₀ hp _ =>
    have heff : Effect sys.shared q (exec ch sys.shared q).2 := exec_effect ch sys.shared q
    -- the time was read back with this step, so the update came right before
    have hlast : th₀.last = some ⟨.renewLeaseForUnderlayIP lease.underlayIP, .ok ()⟩ := by
      rw [List.getElem?_set_self (List.getElem?_eq_some_iff.mp hi₀).1] at hi
      cases hi
      rw [List.append_cons] at hhistory
      rw [Thread.last, List.append_inj_left' hhistory rfl, List.getLast?_concat]
    intro r hr hu
    change (exec ch sys.shared q).2.now ≤ _
    rw [heff.now_eq]
    rcases heff.row_cases hr with hkept | hnew
    · exact hnow th₀ (List.mem_of_getElem? hi₀) _ hlast r hkept hu
    · exact hnew.ge

theorem deletes_selected {accepts : Controllers → Request → Prop} {start : Database}
    {sys : Controllers} {ls : List (Label Request Database Choice)}
    (hr : Run (controllers c allowed timePasses accepts) (Undisturbed c) ⟨start, []⟩ ls sys)
    {th : Client} (hth : th ∈ sys.threads) {draws : ℕ → Draw} {u v : String} {single : Bool}
    {next : Reply (.deleteEntry v) → Prog Response} (hreq : th.request = .acquire draws u single)
    (hp : th.program = .call (.deleteEntry v) next) :
    (v = u ∧ ∃ reply, th.last = some ⟨.leaseForUnderlayIP u, reply⟩) ∨
      ∃ l, Selects c th.last l ∧ l.underlayIP = v ∧
        ∀ r ∈ sys.shared.table.rows, r.underlayIP = v → r.toLease = l ∧ c.Expired sys.shared r := by
  have hfollows := hr.follows (Φ := DeleteFollows c) follows_serve
    (fun th hth => absurd hth List.not_mem_nil) th hth
  have hinv : SelectedExpired c sys := hr.invariant
    (fun a l b ha hs hc => step_selectedExpired ha hs hc) fun th hth => absurd hth List.not_mem_nil
  rw [hp] at hfollows
  rcases hfollows.1 draws u single v hreq rfl with hown | ⟨l, hsel, rfl⟩
  · exact Or.inl hown
  · exact Or.inr ⟨l, hsel, rfl, hinv th hth l hsel⟩

theorem written_kept {start : Database} {sys sys' : Controllers}
    {ls ls' : List (Label Request Database Choice)}
    (hr : Run (controllers c allowed timePasses fun _ _ => True) (Undisturbed c) ⟨start, []⟩ ls sys)
    (hr' : Run (controllers c allowed timePasses fun _ _ => True) (Undisturbed c) sys ls' sys')
    {t : ℤ} {v : String} (hnow : t ≤ sys.shared.now)
    (hwritten : ∀ r ∈ sys.shared.table.rows, r.underlayIP = v → t ≤ r.lastRenewedAt)
    (hlive : sys'.shared.now < t + c.leaseExpirationSeconds) {th : Client} (hth : th ∈ sys'.threads)
    {draws : ℕ → Draw} {u : String} {single : Bool} {next : Reply (.deleteEntry v) → Prog Response}
    (hreq : th.request = .acquire draws u single) (hne : u ≠ v)
    (hp : th.program = .call (.deleteEntry v) next) :
    ∀ r ∈ sys'.shared.table.rows, r.underlayIP ≠ v := by
  intro r hrow hu
  have hfresh := run_fresh hr' hnow hwritten
  rcases deletes_selected (hr.trans hr') hth hreq hp with ⟨huv, -⟩ | ⟨l, -, -, hsel⟩
  · exact hne huv.symm
  · have hexp := (hsel r hrow hu).2
    have hle := hfresh.2 r hrow hu
    rw [LeaseController.Expired] at hexp
    omega

end Invariant

/-- In undisturbed runs the reclaim path deletes only the expired row it selected, and a renewal is
not undone by another host's acquire before it expires, counted from its update. If the clock stands
still from the update of each renewal to its return, then also counted from the return. -/
theorem reclaim_removes_expired (c : LeaseController) {allowed : Choice → Prop} {start : Database}
    {sys : Controllers} {ls : List (Label Request Database Choice)}
    (hr : Run (controllers c allowed timePasses fun _ _ => True) (Undisturbed c)
      ⟨start, []⟩ ls sys) :
    (∀ th ∈ sys.threads, ∀ draws u single v next, th.request = .acquire draws u single →
      th.program = .call (.deleteEntry v) next →
      (v = u ∧ ∃ reply, th.last = some ⟨.leaseForUnderlayIP u, reply⟩) ∨
        ∃ l, Selects c th.last l ∧ l.underlayIP = v ∧
          ∀ r ∈ sys.shared.table.rows, r.underlayIP = v → r.toLease = l ∧ c.Expired sys.shared r) ∧
    (∀ i ch th v next sys₁ ls' sys₂, sys.threads[i]? = some th →
      th.program = .call (.renewLeaseForUnderlayIP v) next →
      (exec ch sys.shared (.renewLeaseForUnderlayIP v)).1 = .ok () →
      Step (controllers c allowed timePasses fun _ _ => True) sys (.statement i ch) sys₁ →
      Undisturbed c sys (.statement i ch) →
      Run (controllers c allowed timePasses fun _ _ => True) (Undisturbed c) sys₁ ls' sys₂ →
      sys₂.shared.now < sys.shared.now + c.leaseExpirationSeconds →
      ∀ th' ∈ sys₂.threads, ∀ draws u single next', th'.request = .acquire draws u single →
        u ≠ v → th'.program = .call (.deleteEntry v) next' →
        ∀ r ∈ sys₂.shared.table.rows, r.underlayIP ≠ v) ∧
    (Run (controllers c allowed timePasses fun _ _ => True)
      (fun sys label => Undisturbed c sys label ∧ Prompt sys label) ⟨start, []⟩ ls sys →
      ∀ i ch sys₁ th lease ls' sys₂,
      Step (controllers c allowed timePasses fun _ _ => True) sys (.statement i ch) sys₁ →
      Undisturbed c sys (.statement i ch) → sys₁.threads[i]? = some th →
      th.request = .renew lease → th.program = .done (.renewed (.ok ())) →
      Run (controllers c allowed timePasses fun _ _ => True) (Undisturbed c) sys₁ ls' sys₂ →
      sys₂.shared.now < sys₁.shared.now + c.leaseExpirationSeconds →
      ∀ th' ∈ sys₂.threads, ∀ draws u single next', th'.request = .acquire draws u single →
        u ≠ lease.underlayIP → th'.program = .call (.deleteEntry lease.underlayIP) next' →
        ∀ r ∈ sys₂.shared.table.rows, r.underlayIP ≠ lease.underlayIP) := by
  refine ⟨fun th hth draws u single v next hreq hp => deletes_selected hr hth hreq hp, ?_, ?_⟩
  · intro i ch th v next sys₁ ls' sys₂ hi hp hok hs hcond hr' hlive th' hth' draws u single next'
      hreq hne hp'
    have hshared : sys₁.shared = renewLeaseForUnderlayIP sys.shared v := by
      rw [hs.statement_eq hi hp]
      change (exec ch sys.shared (.renewLeaseForUnderlayIP v)).2 = _
      rw [exec_ok hok]
      rfl
    have hwritten : ∀ s ∈ sys₁.shared.table.rows, s.underlayIP = v →
        sys.shared.now ≤ s.lastRenewedAt := by
      rw [hshared]
      exact fun s hs hsu => (Table.lastRenewedAt_of_mem_renew hs hsu).ge
    exact written_kept (hr.snoc hs hcond) hr' (by rw [hshared]; exact le_rfl) hwritten hlive hth'
      hreq hne hp'
  · intro hprompt i ch sys₁ th lease ls' sys₂ hs hcond hi hreq' hdone hr' hlive th' hth' draws u
      single next' hreq hne hp'
    have hwritten := step_returned hprompt hs hi hreq' hdone
    exact written_kept (hr.snoc hs hcond) hr' le_rfl hwritten hlive hth' hreq hne hp'

theorem undisturbed_of_unselected {c : LeaseController} {sys : Controllers}
    {label : Label Request Database Choice}
    (h : ∀ th ∈ sys.threads, ∀ l, ¬ Selects c th.last l) : Undisturbed c sys label :=
  fun _ _ _ _ _ _ _ _ th hth l hsel => absurd hsel (h th hth l)

theorem undisturbed_of_single {c : LeaseController} {db : Database} {th : Client}
    {label : Label Request Database Choice} (h : ∀ l, ¬ Selects c th.last l) :
    Undisturbed c ⟨db, [th]⟩ label := by
  refine undisturbed_of_unselected fun th' hth l hsel => ?_
  rw [List.mem_singleton.mp hth] at hsel
  exact h l hsel

theorem not_selects {c : LeaseController} {q : Statement} {reply : Reply q}
    (hblock : q ≠ .oldestExpiredBlockSubnet c.leaseExpirationSeconds)
    (hsingle : q ≠ .oldestExpiredSingleIP c.leaseExpirationSeconds) (l : Lease) :
    ¬ Selects c (some ⟨q, reply⟩) l := by
  rintro (h | h)
  · exact hblock (Sigma.mk.inj (Option.some.inj h)).1
  · exact hsingle (Sigma.mk.inj (Option.some.inj h)).1

theorem not_selects_none {c : LeaseController} (l : Lease) : ¬ Selects c none l := by
  rintro (h | h)
  · cases h
  · cases h

abbrev smallControllers : Machine Statement Reply Response Request Database Choice :=
  controllers (Overlay.small.controller 2 5) (fun _ => True) timePasses fun _ _ => True

def untilReclaim : List (Label Request Database Choice) :=
  [.start (.acquire (fun _ => .first) "10.0.0.2" false), .statement 0 .quiet, .statement 0 .quiet,
    .statement 0 .quiet]

theorem undisturbed_untilReclaim : smallControllers.Playable
    (Undisturbed (Overlay.small.controller 2 5)) ⟨blockHeld 7, []⟩ untilReclaim :=
  ⟨⟨trivial, undisturbed_of_unselected fun _ hth => absurd hth List.not_mem_nil⟩,
    ⟨⟨rfl, trivial⟩, undisturbed_of_single not_selects_none⟩,
    ⟨⟨rfl, trivial⟩, undisturbed_of_single (not_selects (by simp) (by simp))⟩,
    ⟨⟨rfl, trivial⟩, undisturbed_of_single (not_selects (by simp) (by simp))⟩, trivial⟩

def untilReturn : List (Label Request Database Choice) :=
  [.start (.renew ⟨"10.0.0.1", "10.255.0.4/30", "ee:ee:0a:ff:00:04"⟩), .statement 0 .quiet,
    .statement 0 .quiet]

theorem prompt_untilReturn : smallControllers.Playable
    (fun sys label => Undisturbed (Overlay.small.controller 2 5) sys label ∧ Prompt sys label)
    ⟨blockHeld 7, []⟩ untilReturn :=
  ⟨⟨trivial, undisturbed_of_unselected fun _ hth => absurd hth List.not_mem_nil,
      fun _ h => by cases h⟩,
    ⟨⟨rfl, trivial⟩, undisturbed_of_single not_selects_none, fun _ h => by cases h⟩,
    ⟨⟨rfl, trivial⟩, undisturbed_of_single (not_selects (by simp) (by simp)),
      fun _ h => by cases h⟩, trivial⟩

theorem reclaim_removes_expired_small :
    (∃ (sys : Controllers) (th : Client) (l : Lease), th ∈ sys.threads ∧
      Selects (Overlay.small.controller 2 5) th.last l ∧
      ∀ r ∈ sys.shared.table.rows, r.underlayIP = "10.0.0.1" →
        r.toLease = l ∧ (Overlay.small.controller 2 5).Expired sys.shared r) ∧
    ∃ (sys : Controllers) (th : Client), sys.threads = [th] ∧
      th.program = .done (.renewed (.ok ())) ∧ sys.shared.now = 7 ∧
      ∀ ls sys', Run smallControllers (Undisturbed (Overlay.small.controller 2 5)) sys ls sys' →
        sys'.shared.now < 7 + 5 → ∀ th' ∈ sys'.threads, ∀ draws u single next,
        th'.request = .acquire draws u single → u ≠ "10.0.0.1" →
        th'.program = .call (.deleteEntry "10.0.0.1") next →
        ∀ r ∈ sys'.shared.table.rows, r.underlayIP ≠ "10.0.0.1" := by
  constructor
  · have hrun := Run.of_playable undisturbed_untilReclaim
    rcases (reclaim_removes_expired _ hrun).1 _ List.mem_cons_self (fun _ => .first)
      "10.0.0.2" false "10.0.0.1" _ rfl rfl with ⟨hown, -⟩ | ⟨l, hsel, -, hrows⟩
    · exact absurd hown (by decide)
    · exact ⟨_, _, l, List.mem_cons_self, hsel, hrows⟩
  · have hrun := Run.of_playable prompt_untilReturn
    have hstep : Step smallControllers (smallControllers.play ⟨blockHeld 7, []⟩ untilReturn)
        (.statement 0 .quiet) (smallControllers.play ⟨blockHeld 7, []⟩
          (untilReturn ++ [.statement 0 .quiet])) := .of_enabled ⟨rfl, trivial⟩
    refine ⟨smallControllers.play ⟨blockHeld 7, []⟩ (untilReturn ++ [.statement 0 .quiet]), _, rfl,
      rfl, rfl, fun ls sys' hr' hlive => ?_⟩
    exact (reclaim_removes_expired _ (hrun.mono fun _ _ h => h.1)).2.2 hrun 0 .quiet _ _
      ⟨"10.0.0.1", "10.255.0.4/30", "ee:ee:0a:ff:00:04"⟩ ls sys' hstep
      (undisturbed_of_single (not_selects (by simp) (by simp))) rfl rfl rfl hr' hlive

def renewedBeforeDelete : List (Label Request Database Choice) :=
  [.start (.acquire (fun _ => .first) "10.0.0.1" false), .statement 0 .quiet, .statement 0 .quiet,
    .statement 0 .quiet, .drift (blockHeld 7),
    .start (.acquire (fun _ => .first) "10.0.0.2" false), .statement 1 .quiet, .statement 1 .quiet,
    .statement 1 .quiet, .start (.renew ⟨"10.0.0.1", "10.255.0.4/30", "ee:ee:0a:ff:00:04"⟩),
    .statement 2 .quiet, .statement 2 .quiet, .statement 2 .quiet]

/-- The delete removes the row that was renewed in the same second. -/
theorem reclaim_revokes_renewed :
    ∃ (sys sys' : Controllers) (th : Client),
      Run (controllers (Overlay.small.controller 2 5) faultless timePasses fun _ _ => True)
        (fun _ _ => True) ⟨⟨Table.empty, 0⟩, []⟩ renewedBeforeDelete sys ∧
      th ∈ sys.threads ∧
      th.request = .renew ⟨"10.0.0.1", "10.255.0.4/30", "ee:ee:0a:ff:00:04"⟩ ∧
      th.program = .done (.renewed (.ok ())) ∧ sys.shared.now = 7 ∧
      sys.shared.table.rows = [⟨⟨"10.0.0.1", "10.255.0.4/30", "ee:ee:0a:ff:00:04"⟩, 7⟩] ∧
      Step (controllers (Overlay.small.controller 2 5) faultless timePasses fun _ _ => True) sys
        (.statement 1 .quiet) sys' ∧ sys'.shared.now = 7 ∧ sys'.shared.table.rows = [] := by
  have hplay : (controllers (Overlay.small.controller 2 5) faultless timePasses
      fun _ _ => True).Playable (fun _ _ => True) ⟨⟨Table.empty, 0⟩, []⟩ renewedBeforeDelete :=
    ⟨⟨trivial, trivial⟩, ⟨⟨rfl, rfl⟩, trivial⟩, ⟨⟨rfl, rfl⟩, trivial⟩, ⟨⟨rfl, rfl⟩, trivial⟩,
      ⟨⟨rfl, by decide⟩, trivial⟩, ⟨trivial, trivial⟩, ⟨⟨rfl, rfl⟩, trivial⟩, ⟨⟨rfl, rfl⟩, trivial⟩,
      ⟨⟨rfl, rfl⟩, trivial⟩, ⟨trivial, trivial⟩, ⟨⟨rfl, rfl⟩, trivial⟩, ⟨⟨rfl, rfl⟩, trivial⟩,
      ⟨⟨rfl, rfl⟩, trivial⟩, trivial⟩
  refine ⟨_, _, _, .of_playable hplay, List.mem_of_getElem? (i := 2) rfl, rfl, rfl, rfl, rfl,
    .of_enabled ⟨rfl, rfl⟩, rfl, rfl⟩

end Silk.Leaser
