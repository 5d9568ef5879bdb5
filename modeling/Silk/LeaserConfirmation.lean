import Silk.LeaserReclaim

/-!
# What a successful renewal has renewed

A renewal compares the stored lease with its own, or inserts its own, then
updates the timestamp by underlay address alone, and last reads it back. A
release or an acquire of the same host between the comparison and the update can
replace the compared row; the update then refreshes the other row, and the read
that follows does not notice. As long as no row of a host is deleted while a
renewal of that host is about to update it, the updated row is the compared one.
-/

namespace Silk.Leaser

open GoNet Controller Resumption

def Establishes (last : Option (Sigma Reply)) (l : Lease) : Prop :=
  (∃ u, last = some ⟨.leaseForUnderlayIP u, .ok (some l)⟩) ∨ last = some ⟨.addEntry l, .ok ()⟩

/-- A renewal updates the row of its host right after its lease was established. -/
def UpdateFollows (req : Request) (last : Option (Sigma Reply)) (q : Statement) : Prop :=
  ∀ l v, req = .renew l → q = .renewLeaseForUnderlayIP v → v = l.underlayIP ∧ Establishes last l

theorem UpdateFollows.of_ne {req : Request} {last : Option (Sigma Reply)} {q : Statement}
    (h : ∀ v, q ≠ .renewLeaseForUnderlayIP v) : UpdateFollows req last q :=
  fun _ v _ hq => absurd hq (h v)

theorem follows_confirmRenewal {l : Lease} {last : Option (Sigma Reply)} (h : Establishes last l) :
    (LeaseController.confirmRenewal l).Follows (UpdateFollows (.renew l)) last := by
  refine ⟨fun k v hreq hq => ?_, fun renewed => ?_⟩
  · cases hreq
    cases hq
    exact ⟨rfl, h⟩
  · rcases renewed with err | _
    · trivial
    · refine ⟨.of_ne (by simp), fun res => ?_⟩
      rcases res with err | _
      · trivial
      · trivial

theorem follows_renewSubnetLease (l : Lease) (last : Option (Sigma Reply)) :
    (LeaseController.renewSubnetLease l).Follows (UpdateFollows (.renew l)) last := by
  rw [LeaseController.renewSubnetLease]
  cases validate l with
  | error err => trivial
  | ok =>
    refine ⟨.of_ne (by simp), fun found => ?_⟩
    rcases found with err | _ | existing
    · trivial
    · refine ⟨.of_ne (by simp), fun added => ?_⟩
      rcases added with err | _
      · trivial
      · exact follows_confirmRenewal (Or.inr rfl)
    · change Program.Follows _ _ (if _ then _ else _)
      split_ifs with hne
      · trivial
      · rw [← not_ne_iff.mp hne]
        exact follows_confirmRenewal (Or.inl ⟨_, rfl⟩)

theorem updateFollows_serve (c : LeaseController) (req : Request) :
    (serve c req).Follows (UpdateFollows req) none := by
  cases req with
  | acquire draws u single => exact .of_forall (fun _ _ _ _ h => by cases h) _ _
  | release u => exact .of_forall (fun _ _ _ _ h => by cases h) _ _
  | renew l => exact (follows_renewSubnetLease l none).bind fun _ _ => trivial

/-- No row of a host is deleted while a renewal of that host is about to update it. -/
def Unreplaced (sys : Controllers) (label : Label Request Database Choice) : Prop :=
  ∀ i ch th v next, label = .statement i ch → sys.threads[i]? = some th →
    th.program = .call (.deleteEntry v) next →
    ∀ th' ∈ sys.threads, ∀ l next', th'.request = .renew l →
      th'.program ≠ .call (.renewLeaseForUnderlayIP v) next'

def UpdatesOwn (sys : Controllers) : Prop :=
  ∀ th ∈ sys.threads, ∀ l v next, th.request = .renew l →
    th.program = .call (.renewLeaseForUnderlayIP v) next →
      ∃ r ∈ sys.shared.table.rows, r.toLease = l

theorem exec_establishes {ch : Choice} {db : Database} {q : Statement} {l : Lease}
    (h : Establishes (some ⟨q, (exec ch db q).1⟩) l) :
    ∃ r ∈ (exec ch db q).2.table.rows, r.toLease = l := by
  rcases h with ⟨_, h⟩ | h
  · cases (Sigma.mk.inj (Option.some.inj h)).1
    have hok := eq_of_heq (Sigma.mk.inj (Option.some.inj h)).2
    rw [exec_reads ch db rfl]
    rw [exec_ok hok] at hok
    obtain ⟨r, hr, -, hl⟩ := leaseForUnderlayIP_some.mp (Except.ok.inj hok)
    exact ⟨r, hr, hl⟩
  · cases (Sigma.mk.inj (Option.some.inj h)).1
    have hok := eq_of_heq (Sigma.mk.inj (Option.some.inj h)).2
    have heq := exec_ok hok
    rw [heq] at hok ⊢
    change (addEntry ch db l).1 = _ at hok
    change ∃ r ∈ (addEntry ch db l).2.table.rows, _
    rw [addEntry] at hok ⊢
    split_ifs at hok ⊢ with hadm
    exact ⟨_, Table.mem_insert_self hadm, rfl⟩

theorem Effect.lease_of_not_deleted {db db' : Database} {q : Statement} (h : Effect db q db')
    {l : Lease} (hq : q ≠ .deleteEntry l.underlayIP) (hl : ∃ r ∈ db.table.rows, r.toLease = l) :
    ∃ r ∈ db'.table.rows, r.toLease = l := by
  obtain ⟨r, hr, rfl⟩ := hl
  cases h with
  | unchanged => exact ⟨r, hr, rfl⟩
  | inserted hadm => exact ⟨r, (Table.mem_insert hadm).mpr (Or.inl hr), rfl⟩
  | deleted v => exact ⟨r, Table.mem_delete.mpr ⟨hr, fun hu => hq (by rw [hu])⟩, rfl⟩
  | renewed v => exact ⟨_, Table.mem_renew.mpr ⟨r, hr, rfl⟩, Table.touch_toLease v _ r⟩

section Invariant

variable {c : LeaseController} {allowed : Choice → Prop} {start : Database}
  {ls : List (Label Request Database Choice)}

theorem run_updateFollows {sys : Controllers}
    (hr : Run (controllers c allowed anyTime fun _ _ => True) Unreplaced ⟨start, []⟩ ls sys)
    {th : Client} (hth : th ∈ sys.threads) {l : Lease} {v : String}
    {next : Reply (.renewLeaseForUnderlayIP v) → Prog Response} (hreq : th.request = .renew l)
    (hp : th.program = .call (.renewLeaseForUnderlayIP v) next) :
    v = l.underlayIP ∧ Establishes th.last l := by
  have hfollows := hr.follows (Φ := UpdateFollows) (updateFollows_serve c)
    (fun th hth => absurd hth List.not_mem_nil) th hth
  rw [hp] at hfollows
  exact hfollows.1 l v hreq rfl

theorem run_updatesOwn {sys : Controllers}
    (hr : Run (controllers c allowed anyTime fun _ _ => True) Unreplaced ⟨start, []⟩ ls sys) :
    UpdatesOwn sys := by
  induction hr with
  | nil => exact fun th hth => absurd hth List.not_mem_nil
  | @snoc a b ls label hr hs hcond ih =>
    have hfollows : ∀ th ∈ b.threads, ∀ l v next, th.request = .renew l →
        th.program = .call (.renewLeaseForUnderlayIP v) next →
        v = l.underlayIP ∧ Establishes th.last l :=
      fun _ hth _ _ _ => run_updateFollows (hr.snoc hs hcond) hth
    cases hs with
    | start hacc =>
      intro th hth l v next hreq hp
      rcases List.mem_append.mp hth with hold | hnew
      · exact ih th hold l v next hreq hp
      · -- a thread that has just started has not executed a statement
        obtain ⟨-, hest⟩ := hfollows th hth l v next hreq hp
        rw [List.mem_singleton.mp hnew] at hest
        rcases hest with ⟨_, h⟩ | h
        · cases h
        · cases h
    | drift hd =>
      intro th hth l v next hreq hp
      rw [show _ = a.shared.table from hd]
      exact ih th hth l v next hreq hp
    | @statement i ch th q next hi hp _ =>
      intro th' hth' l v next' hreq hp'
      obtain ⟨rfl, hest⟩ := hfollows th' hth' l v next' hreq hp'
      rcases mem_set_cases hth' with rfl | hold
      · rw [Thread.advance_last] at hest
        exact exec_establishes hest
      · have heff : Effect a.shared q (exec ch a.shared q).2 := exec_effect ch a.shared q
        refine Effect.lease_of_not_deleted heff ?_ (ih th' hold l _ next' hreq hp')
        rintro rfl
        exact hcond i ch th l.underlayIP next rfl hi hp th' hold l next' hreq hp'

end Invariant

/-- In runs that replace no row under a renewal, a renewal that returns success
has updated, at its one update of the table, the row of the lease it was given. -/
theorem renewal_confirms_lease (c : LeaseController) {allowed : Choice → Prop} {start : Database}
    {sys : Controllers} {ls : List (Label Request Database Choice)}
    (hr : Run (controllers c allowed anyTime fun _ _ => True) Unreplaced ⟨start, []⟩ ls sys) :
    (∀ th ∈ sys.threads, ∀ l v next, th.request = .renew l →
      th.program = .call (.renewLeaseForUnderlayIP v) next →
      v = l.underlayIP ∧ (∃ r ∈ sys.shared.table.rows, r.toLease = l) ∧
        ∀ r ∈ sys.shared.table.rows, r.underlayIP = v → r.toLease = l) ∧
    ∀ i th l, sys.threads[i]? = some th → th.request = .renew l →
      th.program = .done (.renewed (.ok ())) →
      ∃ ls₁ ch ls₂ sys₁ th₁ next, ls = ls₁ ++ .statement i ch :: ls₂ ∧
        Run (controllers c allowed anyTime fun _ _ => True) Unreplaced ⟨start, []⟩ ls₁ sys₁ ∧
        sys₁.threads[i]? = some th₁ ∧ th₁.request = .renew l ∧
        th₁.program = .call (.renewLeaseForUnderlayIP l.underlayIP) next ∧
        (exec ch sys₁.shared (.renewLeaseForUnderlayIP l.underlayIP)).1 = .ok () ∧
        (∃ r ∈ sys₁.shared.table.rows, r.toLease = l) ∧
        ∀ r ∈ sys₁.shared.table.rows, r.underlayIP = l.underlayIP → r.toLease = l := by
  have hown : ∀ {ls : List (Label Request Database Choice)} {sys : Controllers},
      Run (controllers c allowed anyTime fun _ _ => True) Unreplaced ⟨start, []⟩ ls sys →
      ∀ th ∈ sys.threads, ∀ l v next, th.request = .renew l →
        th.program = .call (.renewLeaseForUnderlayIP v) next →
        v = l.underlayIP ∧ (∃ r ∈ sys.shared.table.rows, r.toLease = l) ∧
          ∀ r ∈ sys.shared.table.rows, r.underlayIP = v → r.toLease = l := by
    intro ls sys hr th hth l v next hreq hp
    obtain ⟨rfl, -⟩ := run_updateFollows hr hth hreq hp
    obtain ⟨r, hrow, rfl⟩ := run_updatesOwn hr th hth l _ next hreq hp
    exact ⟨rfl, ⟨r, hrow, rfl⟩, fun s hs hu => by rw [Table.eq_of_underlayIP hs hrow hu]⟩
  refine ⟨hown hr, fun i th l hi hreq hdone => ?_⟩
  have hearns := hr.earns (P := UpdateEarns) (updateEarns_serve c)
    (fun th hth => absurd hth List.not_mem_nil) th (List.mem_of_getElem? hi)
  rw [hdone] at hearns
  obtain ⟨ls₁, ch, ls₂, sys₁, th₁, next, hls, hr₁, hi₁, hreq₁, hp₁, hok⟩ :=
    hr.executed hi (hearns l hreq rfl).mem
  rw [hreq] at hreq₁
  obtain ⟨-, hrow, hall⟩ := hown hr₁ th₁ (List.mem_of_getElem? hi₁) l _ next hreq₁ hp₁
  exact ⟨ls₁, ch, ls₂, sys₁, th₁, next, hls, hr₁, hi₁, hreq₁, hp₁, hok, hrow, hall⟩

theorem unreplaced_of_start {sys : Controllers} (req : Request) : Unreplaced sys (.start req) :=
  fun _ _ _ _ _ h => by cases h

theorem unreplaced_of_statement {sys : Controllers} {i : ℕ} {ch : Choice} {th : Client}
    {q : Statement} {next : Reply q → Prog Response} (hi : sys.threads[i]? = some th)
    (hp : th.program = .call q next) (hq : ∀ v, q ≠ .deleteEntry v) :
    Unreplaced sys (.statement i ch) := by
  intro j ch' th' v next' hlabel hj hp'
  cases hlabel
  rw [hi] at hj
  cases hj
  rw [hp] at hp'
  cases hp'
  exact absurd rfl (hq v)

def renewedAmidst : List (Label Request Database Choice) :=
  [.start (.renew ⟨"10.0.0.1", "10.255.0.4/30", "ee:ee:0a:ff:00:04"⟩), .statement 0 .quiet,
    .start (.acquire (fun _ => .first) "10.0.0.2" true), .statement 1 .quiet, .statement 0 .quiet,
    .statement 1 .quiet, .statement 1 .quiet, .statement 0 .quiet]

theorem renewal_confirms_lease_small : ∃ (sys : Controllers) (th th' : Client),
    Run (controllers (Overlay.small.controller 2 5) (fun _ => True) anyTime fun _ _ => True)
      Unreplaced ⟨blockHeld 7, []⟩ renewedAmidst sys ∧ sys.threads = [th, th'] ∧
    th.program = .done (.renewed (.ok ())) ∧
    th'.program = .done (.acquired (.ok (some
      ⟨"10.0.0.2", "10.255.0.1/32", "ee:ee:0a:ff:00:01"⟩))) ∧
    ∃ ls₁ ch ls₂ sys₁, renewedAmidst = ls₁ ++ .statement 0 ch :: ls₂ ∧
      Run (controllers (Overlay.small.controller 2 5) (fun _ => True) anyTime fun _ _ => True)
        Unreplaced ⟨blockHeld 7, []⟩ ls₁ sys₁ ∧
      ∃ r ∈ sys₁.shared.table.rows,
        r.toLease = ⟨"10.0.0.1", "10.255.0.4/30", "ee:ee:0a:ff:00:04"⟩ := by
  have hplay : (controllers (Overlay.small.controller 2 5) (fun _ => True) anyTime
      fun _ _ => True).Playable Unreplaced ⟨blockHeld 7, []⟩ renewedAmidst :=
    ⟨⟨trivial, unreplaced_of_start _⟩, ⟨⟨rfl, trivial⟩, unreplaced_of_statement rfl rfl (by simp)⟩,
      ⟨trivial, unreplaced_of_start _⟩, ⟨⟨rfl, trivial⟩, unreplaced_of_statement rfl rfl (by simp)⟩,
      ⟨⟨rfl, trivial⟩, unreplaced_of_statement rfl rfl (by simp)⟩,
      ⟨⟨rfl, trivial⟩, unreplaced_of_statement rfl rfl (by simp)⟩,
      ⟨⟨rfl, trivial⟩, unreplaced_of_statement rfl rfl (by simp)⟩,
      ⟨⟨rfl, trivial⟩, unreplaced_of_statement rfl rfl (by simp)⟩, trivial⟩
  have hrun := Run.of_playable hplay
  obtain ⟨ls₁, ch, ls₂, sys₁, -, -, hls, hr₁, -, -, -, -, hrow, -⟩ :=
    (renewal_confirms_lease _ hrun).2 0 _ _ rfl rfl rfl
  exact ⟨_, _, _, hrun, rfl, rfl, rfl, ls₁, ch, ls₂, sys₁, hls, hr₁, hrow⟩

def replacedBeforeUpdate : List (Label Request Database Choice) :=
  [.start (.acquire (fun _ => .first) "10.0.0.1" false), .statement 0 .quiet, .statement 0 .quiet,
    .statement 0 .quiet, .start (.renew ⟨"10.0.0.1", "10.255.0.4/30", "ee:ee:0a:ff:00:04"⟩),
    .statement 1 .quiet, .start (.release "10.0.0.1"), .statement 2 .quiet,
    .start (.acquire (fun _ => .first) "10.0.0.1" true), .statement 3 .quiet, .statement 3 .quiet,
    .statement 3 .quiet]

/-- The renewal of the block updates the row of the single address and succeeds. -/
theorem renewal_confirms_replacement :
    ∃ (sys sys₁ sys₂ : Controllers) (th₂ : Client),
      Run (controllers (Overlay.small.controller 2 5) faultless anyTime fun _ _ => True)
        (fun _ _ => True) ⟨⟨Table.empty, 0⟩, []⟩ replacedBeforeUpdate sys ∧
      sys.shared.table.rows = [⟨⟨"10.0.0.1", "10.255.0.1/32", "ee:ee:0a:ff:00:01"⟩, 0⟩] ∧
      Step (controllers (Overlay.small.controller 2 5) faultless anyTime fun _ _ => True) sys
        (.statement 1 .quiet) sys₁ ∧
      Step (controllers (Overlay.small.controller 2 5) faultless anyTime fun _ _ => True) sys₁
        (.statement 1 .quiet) sys₂ ∧
      sys₂.threads[1]? = some th₂ ∧
      th₂.request = .renew ⟨"10.0.0.1", "10.255.0.4/30", "ee:ee:0a:ff:00:04"⟩ ∧
      th₂.history.map Sigma.fst = [.leaseForUnderlayIP "10.0.0.1",
        .renewLeaseForUnderlayIP "10.0.0.1", .lastRenewedAtForUnderlayIP "10.0.0.1"] ∧
      th₂.program = .done (.renewed (.ok ())) := by
  have hplay : (controllers (Overlay.small.controller 2 5) faultless anyTime
      fun _ _ => True).Playable (fun _ _ => True) ⟨⟨Table.empty, 0⟩, []⟩ replacedBeforeUpdate :=
    ⟨⟨trivial, trivial⟩, ⟨⟨rfl, rfl⟩, trivial⟩, ⟨⟨rfl, rfl⟩, trivial⟩, ⟨⟨rfl, rfl⟩, trivial⟩,
      ⟨trivial, trivial⟩, ⟨⟨rfl, rfl⟩, trivial⟩, ⟨trivial, trivial⟩, ⟨⟨rfl, rfl⟩, trivial⟩,
      ⟨trivial, trivial⟩, ⟨⟨rfl, rfl⟩, trivial⟩, ⟨⟨rfl, rfl⟩, trivial⟩,
      ⟨⟨rfl, rfl⟩, trivial⟩, trivial⟩
  exact ⟨_, _, _, _, .of_playable hplay, rfl, .of_enabled ⟨rfl, rfl⟩, .of_enabled ⟨rfl, rfl⟩, rfl,
    rfl, rfl, rfl⟩

end Silk.Leaser
