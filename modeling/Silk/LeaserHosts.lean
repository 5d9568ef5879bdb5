import Silk.LeaserExclusivity

/-!
# One host, one lease

The table and every lookup compare underlay addresses as texts, while several
texts parse to one address. A host keeps one row as long as all requests spell
its address in one way; a second spelling is a second host to the controller.
-/

namespace Silk.Leaser

open GoNet Controller Resumption

def SameHost (u v : String) : Prop := ∃ ip, parseIP u = some ip ∧ parseIP v = some ip

def Named (ls : List (Label Request Database Choice)) (u : String) : Prop :=
  ∃ req, .start req ∈ ls ∧ req.underlayIP = u

def OneSpelling (ls : List (Label Request Database Choice)) : Prop :=
  ∀ u v, Named ls u → Named ls v → SameHost u v → u = v

section Hosts

variable {c : LeaseController} {allowed : Choice → Prop} {N : String → Prop}

theorem serve_named {req : Request} (hreq : N req.underlayIP) :
    (serve c req).Safe exec allowed (AllRows fun l => N l.underlayIP) fun _ => True := by
  refine (serve_allRows req ?_ ?_).mono fun _ _ => trivial
  · intro draws u single h subnet l _ hl
    rw [h] at hreq
    rw [(LeaseController.vtepLease_ok hl).1]
    exact hreq
  · intro lease h _
    rw [h] at hreq
    exact hreq

theorem run_named {cond : Controllers → Label Request Database Choice → Prop} {now : ℤ}
    {ls : List (Label Request Database Choice)} {sys : Controllers}
    (hr : Run (controllers c allowed anyTime fun _ req => N req.underlayIP) cond
      ⟨⟨Table.empty, now⟩, []⟩ ls sys) : AllRows (fun l => N l.underlayIP) sys.shared := by
  refine (Run.safe (I := AllRows fun l => N l.underlayIP) (Q := fun _ _ => True) ?_ ?_ hr ?_).1
  · intro s t hs hdrift r hr
    rw [hdrift] at hr
    exact hs r hr
  · intro sys req _ hreq
    exact serve_named hreq
  · exact ⟨fun r hr => absurd hr List.not_mem_nil, fun th hth => absurd hth List.not_mem_nil⟩

def ReleaseWhole (c : LeaseController) (th : Client) : Prop :=
  ∀ u, th.request = .release u → th.program = serve c (.release u) ∨ ∃ res, th.program = .done res

theorem run_threads {cond : Controllers → Label Request Database Choice → Prop} {start : Database}
    {ls : List (Label Request Database Choice)} {sys : Controllers}
    (hr : Run (controllers c allowed anyTime fun _ req => N req.underlayIP) cond
      ⟨start, []⟩ ls sys) :
    ∀ th ∈ sys.threads, N th.request.underlayIP ∧ ReleaseWhole c th := by
  refine hr.threads (fun sys req hreq => ⟨hreq, ?_⟩) (fun th q next r hth hp => ⟨hth.1, ?_⟩)
    fun th hth => absurd hth List.not_mem_nil
  · intro u hu
    exact Or.inl (congrArg (serve c) hu)
  · intro u hu
    right
    rcases hth.2 u hu with hwhole | ⟨res, hdone⟩
    · rw [hp] at hwhole
      cases hwhole
      rw [Thread.advance_program]
      rcases r with (_ | text) | _
      · exact ⟨_, rfl⟩
      · exact ⟨_, rfl⟩
      · exact ⟨_, rfl⟩
    · rw [hp] at hdone
      cases hdone

theorem exec_recordNotAffected {ch : Choice} {db : Database} {u : String}
    (h : (exec ch db (.deleteEntry u)).1 = .error .recordNotAffected) :
    (exec ch db (.deleteEntry u)).2 = db ∧ ∀ r ∈ db.table.rows, r.underlayIP ≠ u := by
  cases hfault : ch.fault with
  | none =>
    rw [exec_of_fault_none hfault] at h ⊢
    simp only [respond, deleteEntry] at h ⊢
    split_ifs at h ⊢ with hrow
    exact ⟨rfl, fun r hr hu => hrow ⟨r, hr, hu⟩⟩
  | some f =>
    simp only [exec, hfault] at h
    cases f with
    | exec applied text => cases h
    | result text => cases h
    | next text => cases h

theorem runs_releaseSubnetLease_ok {u : String} {db db' : Database}
    (h : (LeaseController.releaseSubnetLease u).Runs exec allowed db (.ok ()) db') :
    ∀ r ∈ db'.table.rows, r.underlayIP ≠ u := by
  rw [LeaseController.releaseSubnetLease] at h
  obtain ⟨res, db₁, hdel, hrest⟩ := Program.runs_bind.mp h
  rcases res with (_ | text) | _
  · obtain ⟨-, rfl⟩ := hrest
    obtain ⟨ch, -, hres, rfl⟩ := hdel
    obtain ⟨hsame, hno⟩ := exec_recordNotAffected hres.symm
    rw [hsame]
    exact hno
  · cases hrest.1
  · obtain ⟨-, rfl⟩ := hrest
    rw [runs_deleteEntry_ok hdel]
    exact fun r hr => (Table.mem_delete.mp hr).2

end Hosts

theorem Named.of_statement {ls : List (Label Request Database Choice)} {i : ℕ} {ch : Choice}
    {u : String} (h : Named (ls ++ [.statement i ch]) u) : Named ls u := by
  obtain ⟨req, hreq, hu⟩ := h
  rcases List.mem_append.mp hreq with hold | hnew
  · exact ⟨req, hold, hu⟩
  · cases List.mem_singleton.mp hnew

section OneSpelling

variable {c : LeaseController} {allowed : Choice → Prop} {now : ℤ}
  {ls : List (Label Request Database Choice)} {sys : Controllers}
  (hr : Run (controllers c allowed anyTime fun _ _ => True) (fun _ _ => True)
    ⟨⟨Table.empty, now⟩, []⟩ ls sys)

include hr

theorem run_rows_named : AllRows (fun l => Named ls l.underlayIP) sys.shared :=
  run_named (hr.accepting fun _ req hreq => ⟨req, hreq, rfl⟩)

theorem release_step {i : ℕ} {ch : Choice} {th th' : Client} {u : String} {sys' : Controllers}
    (hi : sys.threads[i]? = some th) (hreq : th.request = .release u)
    (hs : Step (controllers c allowed anyTime fun _ _ => True) sys (.statement i ch) sys')
    (hi' : sys'.threads[i]? = some th') (hdone : th'.program = .done (.released (.ok ()))) :
    Named ls u ∧ ∀ r ∈ sys'.shared.table.rows, r.underlayIP ≠ u := by
  obtain ⟨hnamed, hwhole⟩ := run_threads (N := Named ls)
    (hr.accepting fun _ req hreq => ⟨req, hreq, rfl⟩) th (List.mem_of_getElem? hi)
  rw [hreq] at hnamed
  refine ⟨hnamed, ?_⟩
  rcases hwhole u hreq with hprogram | ⟨res, hended⟩
  · have hruns := hs.runs_of_done hi hi' hdone
    rw [hprogram] at hruns
    exact runs_releaseSubnetLease_ok (runs_serve_release.mp hruns)
  · obtain ⟨q, next, hcall⟩ := hs.pending hi
    rw [hended] at hcall
    cases hcall

end OneSpelling

/-- In every run whose requests spell each address in one way, no two rows belong
to one host, and a release that succeeds leaves no row of its host. -/
theorem one_host_one_lease (c : LeaseController) {allowed : Choice → Prop} {now : ℤ}
    {ls : List (Label Request Database Choice)} {sys : Controllers}
    (hr : Run (controllers c allowed anyTime fun _ _ => True) (fun _ _ => True)
      ⟨⟨Table.empty, now⟩, []⟩ ls sys) (hone : OneSpelling ls) :
    (∀ r ∈ sys.shared.table.rows, ∀ s ∈ sys.shared.table.rows, r ≠ s →
      ¬ SameHost r.underlayIP s.underlayIP) ∧
    ∀ i ch th th' u sys', sys.threads[i]? = some th → th.request = .release u →
      Step (controllers c allowed anyTime fun _ _ => True) sys (.statement i ch) sys' →
      sys'.threads[i]? = some th' → th'.program = .done (.released (.ok ())) →
      ∀ r ∈ sys'.shared.table.rows, ¬ SameHost r.underlayIP u := by
  constructor
  · intro r hrow s hrow' hne hsame
    have heq := hone _ _ (run_rows_named hr r hrow) (run_rows_named hr s hrow') hsame
    exact hne (Table.eq_of_underlayIP hrow hrow' heq)
  · intro i ch th th' u sys' hi hreq hs hi' hdone r hrow hsame
    obtain ⟨hnamed, hno⟩ := release_step hr hi hreq hs hi' hdone
    have hrow' : Named ls r.underlayIP := (run_rows_named (hr.snoc hs trivial) r hrow).of_statement
    exact hno r hrow (hone _ _ hrow' hnamed hsame)

theorem oneSpelling_twoAcquires : OneSpelling twoAcquires := by
  have hnames : ∀ u, Named twoAcquires u → u = "10.0.0.1" ∨ u = "10.0.0.2" := by
    intro u hu
    obtain ⟨req, hreq, rfl⟩ := hu
    simp only [twoAcquires, List.mem_cons, Label.start.injEq, reduceCtorEq, List.not_mem_nil,
      or_false] at hreq
    rcases hreq with rfl | rfl
    · exact Or.inl rfl
    · exact Or.inr rfl
  intro u v hu hv hsame
  obtain ⟨ip, hip, hip'⟩ := hsame
  have heq := hip.trans hip'.symm
  rcases hnames u hu with rfl | rfl <;> rcases hnames v hv with rfl | rfl
  · rfl
  · exact absurd heq (by decide)
  · exact absurd heq (by decide)
  · rfl

theorem one_host_one_lease_small :
    ∃ sys : Controllers, Run (controllers (Overlay.small.controller 2 5) (fun _ => True) anyTime
        fun _ _ => True) (fun _ _ => True) ⟨⟨Table.empty, 0⟩, []⟩ twoAcquires sys ∧
      sys.shared.table.rows.length = 2 ∧
      ∀ r ∈ sys.shared.table.rows, ∀ s ∈ sys.shared.table.rows, r ≠ s →
        ¬ SameHost r.underlayIP s.underlayIP := by
  have hplay : (controllers (Overlay.small.controller 2 5) (fun _ => True) anyTime
      fun _ _ => True).Playable (fun _ _ => True) ⟨⟨Table.empty, 0⟩, []⟩ twoAcquires :=
    ⟨⟨trivial, trivial⟩, ⟨trivial, trivial⟩, ⟨⟨rfl, trivial⟩, trivial⟩, ⟨⟨rfl, trivial⟩, trivial⟩,
      ⟨⟨rfl, trivial⟩, trivial⟩, ⟨⟨rfl, trivial⟩, trivial⟩, ⟨⟨rfl, trivial⟩, trivial⟩,
      ⟨⟨rfl, trivial⟩, trivial⟩, trivial⟩
  exact ⟨_, .of_playable hplay, by decide,
    (one_host_one_lease _ (.of_playable hplay) oneSpelling_twoAcquires).1⟩

def twoSpellings : List (Label Request Database Choice) :=
  [.start (.acquire (fun _ => .first) "10.0.0.1" true), .statement 0 .quiet, .statement 0 .quiet,
    .statement 0 .quiet, .start (.acquire (fun _ => .first) "::ffff:10.0.0.1" true),
    .statement 1 .quiet, .statement 1 .quiet, .statement 1 .quiet,
    .start (.release "::ffff:10.0.0.1")]

theorem spellings_share_address :
    ∃ (sys sys' : Controllers) (th' : Client),
      Run (controllers (Overlay.small.controller 2 5) faultless anyTime fun _ _ => True)
        (fun _ _ => True) ⟨⟨Table.empty, 0⟩, []⟩ twoSpellings sys ∧
      (∃ r ∈ sys.shared.table.rows, ∃ s ∈ sys.shared.table.rows, r ≠ s ∧
        SameHost r.underlayIP s.underlayIP) ∧
      Step (controllers (Overlay.small.controller 2 5) faultless anyTime fun _ _ => True) sys
        (.statement 2 .quiet) sys' ∧
      sys'.threads[2]? = some th' ∧ th'.request = .release "::ffff:10.0.0.1" ∧
      th'.program = .done (.released (.ok ())) ∧
      ∃ r ∈ sys'.shared.table.rows, SameHost r.underlayIP "::ffff:10.0.0.1" := by
  have hplay : (controllers (Overlay.small.controller 2 5) faultless anyTime
      fun _ _ => True).Playable (fun _ _ => True) ⟨⟨Table.empty, 0⟩, []⟩ twoSpellings :=
    ⟨⟨trivial, trivial⟩, ⟨⟨rfl, rfl⟩, trivial⟩, ⟨⟨rfl, rfl⟩, trivial⟩, ⟨⟨rfl, rfl⟩, trivial⟩,
      ⟨trivial, trivial⟩, ⟨⟨rfl, rfl⟩, trivial⟩, ⟨⟨rfl, rfl⟩, trivial⟩, ⟨⟨rfl, rfl⟩, trivial⟩,
      ⟨trivial, trivial⟩, trivial⟩
  refine ⟨_, _, _, .of_playable hplay, ?_, .of_enabled ⟨rfl, rfl⟩, rfl, rfl, rfl, ?_⟩
  · exact ⟨⟨⟨"10.0.0.1", "10.255.0.1/32", "ee:ee:0a:ff:00:01"⟩, 0⟩, by decide,
      ⟨⟨"::ffff:10.0.0.1", "10.255.0.2/32", "ee:ee:0a:ff:00:02"⟩, 0⟩, by decide, by decide,
      _, rfl, rfl⟩
  · exact ⟨⟨⟨"10.0.0.1", "10.255.0.1/32", "ee:ee:0a:ff:00:01"⟩, 0⟩, by decide, _, rfl, rfl⟩

end Silk.Leaser
