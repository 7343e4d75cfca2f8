import AetherGrid.Cluster.Safety
import AetherGrid.Cluster.Concurrent
import AetherGrid.Cluster.LateWorker
import AetherGrid.Prog.Trace

/-!
This module contains a process that stops in the middle of a scheduler tick or of a report.
-/

namespace AetherGrid

open Prog

namespace Crash

def writes (c : Call) : Bool :=
  match c with
  | .uuid4 => false
  | c => !c.isRead

def closes (c : Call) : Bool :=
  match c with
  | .saveEvent _ _ type => type.closes
  | _ => false

def grants (c : Call) : Bool :=
  match c with
  | .saveEvent _ _ type => type = .leaseAcquired
  | _ => false

def writing : Machine signature (DB × Option Call) Env where
  exec c env s := ((c.exec env s.1).1, (c.exec env s.1).2, if writes c then some c else s.2)

def resting (last : Option Call) (next : Call) : Bool :=
  last.all closes || closes next

-- the lease is written, the row of its worker is not
def granting (last : Option Call) (next : Call) : Bool :=
  last.any grants || grants next

def writesRows (call : ServiceCall) : Bool :=
  match call with
  | .schedulerTick => true
  | .report _ _ _ _ _ _ => true
  | _ => false

def goesOn (call : ServiceCall) : Bool :=
  match call with
  | .schedulerTick => true
  | .workerHeartbeat _ _ => true
  | .heartbeatNode _ _ => true
  | .markDeadWorkers => true
  | .recoverExpiredLeases => true
  | .recoverOfflineNodes => true
  | _ => false

def GoesOn : DB → DB → Prop :=
  Relation.ReflTransGen
    (fun db db' => ∃ call r, goesOn call ∧ Runs postgres anyClock call.run db r db')

def waits (call : ServiceCall) : Bool :=
  match call with
  | .schedulerTick => false
  | call => goesOn call

def heard (db : DB) (call : ServiceCall) (env : Env) : Prop :=
  match call with
  | .markDeadWorkers => ∀ row ∈ db.workers.rows, env.now - row.lastSeenAt ≤ heartbeatTimeout
  | .recoverOfflineNodes => ∀ node ∈ db.nodes.rows, node.isAlive (env.nowFor node.id)
  | _ => True

def Waits : DB → DB → Prop :=
  Relation.ReflTransGen
    (fun db db' => ∃ call r, waits call ∧ Runs postgres (heard db call) call.run db r db')

def afterExpiry (db : DB) (env : Env) : Prop :=
  ∀ lease ∈ db.leases.rows, lease.expiresAt < env.now

def Sweeps (db db' : DB) : Prop :=
  ∃ waited swept r, Waits db waited
    ∧ Runs postgres (afterExpiry waited) ServiceCall.recoverExpiredLeases.run waited r swept
    ∧ GoesOn swept db'

section

variable {origin db db' : DB}

structure Closing (origin : DB) (db : DB) (c : Call) : Prop where
  good : closes c → Good origin db
  owes : grants c → ∃ held, Owes (Good origin) held db

instance : Settling (Good origin) (Closing origin) where
  plain _ c hc := by
    cases c with
    | saveEvent job tenant type => contradiction
    | _ => exact ⟨nofun, nofun⟩
  job _ _ _ := ⟨nofun, nofun⟩
  event _ _ _ _ hgood howes := ⟨hgood, fun h => howes (of_decide_eq_true h)⟩

theorem closing_saveLease (db : DB) (lease : Lease) : Closing origin db (.saveLease lease) :=
  ⟨nofun, nofun⟩

theorem wp_run {call : ServiceCall} (hinv : Inv db) (hcall : writesRows call)
    : wp postgres anyClock (Closing db) call.run (fun _ _ => True) db := by
  cases call with
  | schedulerTick =>
    apply wp_mono (SchedulerLoop.wp_execute (G := Closing db) hinv
      (fun db' lease _ => closing_saveLease db' lease))
    exact fun _ _ _ => trivial
  | report outcome worker job tenant lease exitCode =>
    have hdiscard : (ServiceCall.report outcome worker job tenant lease exitCode).run
        = (fun _ => PUnit.unit) <$> ReportJobOutcome.report outcome worker job tenant lease exitCode := rfl
    rw [hdiscard, wp_map]
    apply wp_mono (ReportJobOutcome.wp_report hinv outcome worker job tenant lease exitCode)
    exact fun _ _ _ => trivial
  | _ => contradiction

theorem exec_of_bump {P : DB → Prop} {K : Call → Bool} {c : Call}
    (hK : ∀ c, K c → ∃ job tenant type, c = .saveEvent job tenant type)
    (hbump : ∀ db', db'.nodes = db.nodes → db'.jobs = db.jobs → db'.workers = db.workers →
      db'.leases = db.leases → db.nextId ≤ db'.nextId → P db')
    (hc : writes c = false ∨ K c) (env : Env) : P (c.exec env db).2 := by
  cases c with
  | uuid4 => exact hbump _ rfl rfl rfl rfl (Nat.le_succ _)
  | saveEvent job tenant type =>
    rcases Call.exec_saveEvent env db job tenant type with ⟨e, heq⟩ | ⟨events, heq⟩
    . rw [heq]
      exact hbump _ rfl rfl rfl rfl (Nat.le_refl _)
    . rw [heq]
      exact hbump _ rfl rfl rfl rfl (Nat.le_succ _)
  | saveNode _ | deleteNode _ _ | saveJob _ | saveWorker _ | saveLease _ | renewLease _ _ _
  | deleteLease _ _ | deleteLeaseIfExpired _ _ =>
    rcases hc with hc | hc
    . contradiction
    . have ⟨_, _, _, heq⟩ := hK _ hc
      contradiction
  | _ => exact hbump _ rfl rfl rfl rfl (Nat.le_refl _)

theorem good_exec (h : Good origin db) {c : Call} (hc : writes c = false ∨ closes c) (env : Env)
    : Good origin (c.exec env db).2 := by
  refine exec_of_bump (K := closes) ?_ ?_ hc env
  . intro c hc
    cases c <;> first | exact ⟨_, _, _, rfl⟩ | contradiction
  . intro db' hnodes hjobs hworkers hleases hnext
    exact h.trans (h.inv.bump hnodes hjobs hworkers hleases hnext)

theorem owes_exec (h : ∃ held, Owes (Good origin) held db) {c : Call} (hc : writes c = false ∨ grants c)
    (env : Env) : ∃ held, Owes (Good origin) held (c.exec env db).2 := by
  have ⟨held, howes⟩ := h
  refine exec_of_bump (P := fun db => ∃ held, Owes (Good origin) held db) (K := grants) ?_ ?_ hc env
  . intro c hc
    cases c <;> first | exact ⟨_, _, _, rfl⟩ | contradiction
  . intro db' hnodes hjobs hworkers hleases hnext
    refine ⟨held, howes.schema.congr hnodes hjobs hworkers hleases, ?_, ?_, ?_⟩
    . rw [hworkers]
      exact howes.row
    . rw [hleases]
      exact howes.lease
    . refine howes.settled.trans (howes.settled.inv.bump hnodes hjobs ?_ hleases hnext)
      dsimp only [withWorker]
      rw [hworkers]

theorem of_stops {α : Type} {p : Service α} {Q : Except Err α → DB → Prop} {G : DB → Call → Prop}
    {P : DB → Prop} {K : Call → Bool} {L : Option Call → Bool} {last last' : Option Call} {next : Call}
    (hL : ∀ c, L (some c) = K c) (hguard : ∀ db c, G db c → K c → P db)
    (hexec : ∀ db c env, P db → writes c = false ∨ K c → P (c.exec env db).2)
    (hwp : wp postgres anyClock G p Q db) (hlast : L last → P db)
    (hstops : Stops writing anyClock p (db, last) next (db', last')) (hrest : L last' || K next) : P db' := by
  induction p generalizing db last with
  | ret _ | raise _ => exact hstops.elim
  | call c k ih =>
    rcases hstops with ⟨rfl, heq⟩ | ⟨env, henv, hstops⟩
    . injection heq with hdb hlast'
      subst hdb hlast'
      rcases Bool.or_eq_true _ _ ▸ hrest with hL' | hnext
      . exact hlast hL'
      . exact hguard _ _ hwp.left hnext
    . apply ih _ (hwp.right env henv) _ hstops
      dsimp only
      split
      . rw [hL]
        intro hK
        exact hexec _ _ _ (hguard _ _ hwp.left hK) (.inr hK)
      . next hwrites =>
        intro hL'
        exact hexec _ _ _ (hlast hL') (.inl (Bool.eq_false_iff.mpr hwrites))

theorem good_of_stops {call : ServiceCall} {last : Option Call} {next : Call} (hinv : Inv origin)
    (hcall : writesRows call) (hstops : Stops writing anyClock call.run (origin, none) next (db, last))
    (hrest : resting last next) : Good origin db :=
  of_stops (L := fun last => last.all closes) (fun _ => rfl) (fun _ _ h => h.good)
    (fun _ _ env h hc => good_exec h hc env) (wp_run hinv hcall) (fun _ => Good.refl hinv) hstops hrest

theorem owes_of_stops {call : ServiceCall} {last : Option Call} {next : Call} (hinv : Inv origin)
    (hcall : writesRows call) (hstops : Stops writing anyClock call.run (origin, none) next (db, last))
    (hrest : granting last next) : ∃ held, Owes (Good origin) held db :=
  of_stops (P := fun db => ∃ held, Owes (Good origin) held db) (K := grants) (L := fun last => last.any grants)
    (fun _ => rfl) (fun _ _ h => h.owes) (fun _ _ env h hc => owes_exec h hc env) (wp_run hinv hcall)
    (by nofun) hstops hrest

theorem good_of_goesOn (hinv : Inv db) (h : GoesOn db db') : Good db db' := by
  induction h with
  | refl => exact Good.refl hinv
  | tail _ hstep ih =>
    have ⟨request, r, hrequest, hruns⟩ := hstep
    have ⟨hinv', hkeeps, hstranded⟩ := hruns.of_wp (request.wp_run ih.inv (fun _ => Nat.zero_le _))
    refine ih.trans ⟨hinv', hkeeps, hstranded ?_⟩
    cases request with
    | removeOfflineNode _ _ => contradiction
    | _ => trivial

theorem goesOn_of_runs {call : ServiceCall} {H : Env → Prop} {r : Except Err Unit} (hcall : goesOn call)
    (hruns : Runs postgres H call.run db r db') : GoesOn db db' :=
  .single ⟨call, r, hcall, hruns.mono fun _ _ => trivial⟩

def Late (origin db : DB) : Prop :=
  Good origin db ∨ ∃ held lease, Lags held lease db ∧ Good origin (withWorker held db)

theorem late_of_owes (h : ∃ held, Owes (Good origin) held db) : Late origin db := by
  have ⟨held, howes⟩ := h
  have ⟨lease, hlease, hworker⟩ := howes.lease
  exact .inr ⟨held, lease, ⟨howes.schema, howes.row, hlease, hworker⟩, howes.settled⟩

theorem Late.step {call : ServiceCall} {r : Except Err Unit} (h : Late origin db) (hcall : waits call)
    (hruns : Runs postgres (heard db call) call.run db r db') : Late origin db' := by
  have hgoes : goesOn call := by
    cases call with
    | schedulerTick => contradiction
    | _ => exact hcall
  rcases h with hgood | ⟨held, lease, hlags, hgood⟩
  . exact .inl (hgood.trans (good_of_goesOn hgood.inv (goesOn_of_runs hgoes hruns)))
  . have hnext : ∀ {r db1}, Runs postgres (heard db call) call.run (withWorker held db) r db1 → Good origin db1 :=
      fun hruns => hgood.trans (good_of_goesOn hgood.inv (goesOn_of_runs hgoes hruns))
    cases call with
    | heartbeatNode node tenant =>
      have ⟨_, hruns, _⟩ := (runs_map_iff _ _ _ _ _).mp hruns
      have ⟨hmapped, hlags'⟩ := hlags.heartbeatNode hruns
      exact .inr ⟨held, lease, hlags', hnext ((runs_map_iff _ _ _ _ _).mpr ⟨_, hmapped, rfl⟩)⟩
    | workerHeartbeat worker tenant =>
      have ⟨_, hruns, _⟩ := (runs_map_iff _ _ _ _ _).mp hruns
      by_cases hself : worker = held.id
      . subst hself
        have ⟨r', held', hmapped, hlags'⟩ := hlags.workerHeartbeat_self hgood.inv.schema hruns
        exact .inr ⟨held', lease, hlags', hnext ((runs_map_iff _ _ _ _ _).mpr ⟨_, hmapped, rfl⟩)⟩
      . have ⟨hmapped, hlags'⟩ := hlags.workerHeartbeat_other hself hruns
        exact .inr ⟨held, lease, hlags', hnext ((runs_map_iff _ _ _ _ _).mpr ⟨_, hmapped, rfl⟩)⟩
    | markDeadWorkers =>
      have heq := markDeadWorkers_alive hlags.schema hruns
      exact .inr ⟨held, lease, heq ▸ hlags, heq ▸ hgood⟩
    | recoverOfflineNodes =>
      have heq := recoverOfflineNodes_alive hruns
      exact .inr ⟨held, lease, heq ▸ hlags, heq ▸ hgood⟩
    | recoverExpiredLeases =>
      rcases hlags.recoverExpiredLeases hgood.inv hruns with hsame | ⟨⟨hmapped, hlags'⟩, _⟩
      . exact .inl (hnext hsame)
      . exact .inr ⟨held, lease, hlags', hnext hmapped⟩
    | _ => contradiction

theorem Late.waits (h : Late origin db) (hwaits : Waits db db') : Late origin db' := by
  induction hwaits with
  | refl => exact h
  | tail _ hstep ih =>
    have ⟨request, r, hrequest, hruns⟩ := hstep
    exact ih.step hrequest hruns

theorem Late.sweep {r : Except Err Unit} (h : Late origin db)
    (hruns : Runs postgres (afterExpiry db) ServiceCall.recoverExpiredLeases.run db r db') : Good origin db' := by
  rcases h with hgood | ⟨held, lease, hlags, hgood⟩
  . exact hgood.trans (good_of_goesOn hgood.inv (goesOn_of_runs rfl hruns))
  . rcases hlags.recoverExpiredLeases hgood.inv hruns with hsame | ⟨_, env, henv, hearly⟩
    . have hstep : GoesOn (withWorker held db) db' :=
        @goesOn_of_runs _ _ .recoverExpiredLeases _ _ rfl hsame
      exact hgood.trans (good_of_goesOn hgood.inv hstep)
    . exact absurd (henv lease hlags.stored) (Int.not_lt.mpr hearly)

end

theorem recovered {c : Cluster} {call : ServiceCall} {last : Option Call} {next : Call} {db db' : DB}
    (hreachable : Reachable anyCall c) (hstart : ∀ id, ¬Stranded c.db id) (hcall : writesRows call)
    (hstops : Stops writing anyClock call.run (c.db, none) next (db, last))
    (hafter : resting last next ∧ GoesOn db db' ∨ granting last next ∧ Sweeps db db')
    : (∀ id, ¬Stranded db' id)
        ∧ ∀ node ∈ db'.nodes.rows, node.available + used db' node.id = node.capacity := by
  have hinv := hreachable.ordered.inv
  have hgood : Good c.db db' := by
    rcases hafter with ⟨hrest, hafter⟩ | ⟨hrest, waited, swept, r, hwaits, hsweep, hafter⟩
    . have hstopped := good_of_stops hinv hcall hstops hrest
      exact hstopped.trans (good_of_goesOn hstopped.inv hafter)
    . have hlate := (late_of_owes (owes_of_stops hinv hcall hstops hrest)).waits hwaits
      have hswept := hlate.sweep hsweep
      exact hswept.trans (good_of_goesOn hswept.inv hafter)
  refine ⟨?_, hgood.inv.conserved⟩
  intro id hstranded
  exact hstart id (hgood.stranded id hstranded)

theorem goesOn_replay (calls : List (Env × ServiceCall)) (hcalls : ∀ call ∈ calls, goesOn call.2) (db : DB)
    : GoesOn db (replay calls db) := by
  induction calls generalizing db with
  | nil => exact .refl
  | cons entry calls ih =>
    have ⟨env, request⟩ := entry
    apply Relation.ReflTransGen.head (b := (eval postgres env request.run db).2)
    . exact ⟨request, _, hcalls _ List.mem_cons_self, runs_eval trivial _ _⟩
    . exact ih (fun entry hentry => hcalls entry (List.mem_cons_of_mem _ hentry)) _

def nextCycle : List (Env × ServiceCall) :=
  [({ now := seconds 100 }, .heartbeatNode ⟨0⟩ ⟨0⟩),
    ({ now := seconds 100 }, .workerHeartbeat ⟨3⟩ ⟨0⟩),
    ({ now := seconds 100 }, .schedulerTick),
    ({ now := seconds 100 }, .markDeadWorkers),
    ({ now := seconds 100 }, .recoverExpiredLeases),
    ({ now := seconds 100 }, .recoverOfflineNodes)]

theorem goesOn_nextCycle (db : DB) : GoesOn db (replay nextCycle db) :=
  goesOn_replay nextCycle (by decide) db

theorem not_stranded_oneQueuedJob (id : JobId) : ¬Stranded (replay oneQueuedJob DB.empty) id := by
  have hreachable : Reachable removesVacant ⟨replay oneQueuedJob DB.empty, []⟩ := by
    apply reachable_replay
    . exact .init pristine_empty
    . intro db entry hentry
      fin_cases hentry <;> trivial
  exact hreachable.not_stranded id

theorem abandoned
    : Reachable anyCall ⟨replay oneQueuedJob DB.empty, []⟩
        ∧ (∀ id, ¬Stranded (replay oneQueuedJob DB.empty) id)
        ∧ ∃ next db last,
          Stops writing anyClock ServiceCall.schedulerTick.run (replay oneQueuedJob DB.empty, none) next
              (db, last)
            ∧ GoesOn db (replay nextCycle db)
            ∧ Stranded (replay nextCycle db) ⟨1⟩
            ∧ ∃ node ∈ (replay nextCycle db).nodes.rows,
              node.available + used (replay nextCycle db) node.id ≠ node.capacity := by
  refine ⟨reachable_oneQueuedJob, not_stranded_oneQueuedJob, ?_⟩
  obtain ⟨next, s, hstops, hleft⟩ := exists_stops_of_stopAfter (M := writing) (H := anyClock)
    (x := { now := 0 }) trivial 5 ServiceCall.schedulerTick.run (replay oneQueuedJob DB.empty, none)
    (fun _ s => Stranded (replay nextCycle s.1) ⟨1⟩
      ∧ ∃ node ∈ (replay nextCycle s.1).nodes.rows,
        node.available + used (replay nextCycle s.1) node.id ≠ node.capacity)
    (by decide +kernel)
  exact ⟨next, s.1, s.2, hstops, goesOn_nextCycle s.1, hleft⟩

def anotherQueuedJob : List (Env × ServiceCall) :=
  oneQueuedJob ++ [({ now := 0 }, .createJob ⟨1, 1024, 0⟩ ⟨0⟩ none)]

theorem stranded_before_sweep
    : ∃ next db last,
        Stops writing anyClock ServiceCall.schedulerTick.run (replay anotherQueuedJob DB.empty, none) next
            (db, last)
          ∧ granting last next
          ∧ GoesOn db (replay nextCycle db)
          ∧ Stranded (replay nextCycle db) ⟨4⟩ := by
  obtain ⟨next, ⟨db, last⟩, hstops, hrest, hleft⟩ :=
    exists_stops_of_stopAfter (M := writing) (H := anyClock) (x := { now := 0 }) trivial 12
      ServiceCall.schedulerTick.run (replay anotherQueuedJob DB.empty, none)
      (fun next s => granting s.2 next ∧ Stranded (replay nextCycle s.1) ⟨4⟩)
      (by decide +kernel)
  exact ⟨next, db, last, hstops, hrest, goesOn_nextCycle db, hleft⟩

def nextSweep : List (Env × ServiceCall) :=
  [({ now := seconds 20 }, .heartbeatNode ⟨0⟩ ⟨0⟩),
    ({ now := seconds 20 }, .workerHeartbeat ⟨3⟩ ⟨0⟩)]

theorem waits_nextSweep (db : DB) : Waits db (replay nextSweep db) :=
  .tail (.single ⟨.heartbeatNode ⟨0⟩ ⟨0⟩, _, rfl, runs_eval trivial _ _⟩)
    ⟨.workerHeartbeat ⟨3⟩ ⟨0⟩, _, rfl, runs_eval trivial _ _⟩

def swept (db : DB) : DB :=
  (eval postgres { now := seconds 100 } ServiceCall.recoverExpiredLeases.run (replay nextSweep db)).2

theorem sweeps_swept {db : DB} (hexpired : ∀ lease ∈ (replay nextSweep db).leases.rows, lease.expiresAt < seconds 100)
    : Sweeps db (swept db) :=
  ⟨_, _, _, waits_nextSweep db,
    runs_eval (H := afterExpiry (replay nextSweep db)) (x := { now := seconds 100 }) hexpired _ _, .refl⟩

theorem recovered_afterLease
    : (∃ next db last,
        Stops writing anyClock ServiceCall.schedulerTick.run (replay oneQueuedJob DB.empty, none) next
            (db, last)
          ∧ resting last next
          ∧ (db.jobs.get? ⟨1⟩).any (·.isScheduled)
          ∧ (∀ id, ¬Stranded (replay nextCycle db) id)
          ∧ ∀ node ∈ (replay nextCycle db).nodes.rows,
            node.available + used (replay nextCycle db) node.id = node.capacity)
      ∧ ∃ next db last,
        Stops writing anyClock ServiceCall.schedulerTick.run (replay oneQueuedJob DB.empty, none) next
            (db, last)
          ∧ granting last next
          ∧ (db.workers.get? ⟨3⟩).map (·.status) = some .idle
          ∧ Sweeps db (swept db)
          ∧ (∀ id, ¬Stranded (swept db) id)
          ∧ ∀ node ∈ (swept db).nodes.rows, node.available + used (swept db) node.id = node.capacity := by
  constructor
  . obtain ⟨next, ⟨db, last⟩, hstops, hrest, hscheduled⟩ :=
      exists_stops_of_stopAfter (M := writing) (H := anyClock) (x := { now := 0 }) trivial 13
        ServiceCall.schedulerTick.run (replay oneQueuedJob DB.empty, none)
        (fun next s => resting s.2 next ∧ (s.1.jobs.get? ⟨1⟩).any (·.isScheduled))
        (by decide +kernel)
    refine ⟨next, db, last, hstops, hrest, hscheduled, ?_⟩
    exact recovered reachable_oneQueuedJob not_stranded_oneQueuedJob rfl hstops
      (.inl ⟨hrest, goesOn_nextCycle db⟩)
  . obtain ⟨next, ⟨db, last⟩, hstops, hrest, hidle, hexpired⟩ :=
      exists_stops_of_stopAfter (M := writing) (H := anyClock) (x := { now := 0 }) trivial 12
        ServiceCall.schedulerTick.run (replay oneQueuedJob DB.empty, none)
        (fun next s => granting s.2 next ∧ (s.1.workers.get? ⟨3⟩).map (·.status) = some .idle
          ∧ ∀ lease ∈ (replay nextSweep s.1).leases.rows, lease.expiresAt < seconds 100)
        (by decide +kernel)
    have hsweeps := sweeps_swept hexpired
    refine ⟨next, db, last, hstops, hrest, hidle, hsweeps, ?_⟩
    exact recovered reachable_oneQueuedJob not_stranded_oneQueuedJob rfl hstops (.inr ⟨hrest, hsweeps⟩)

end Crash

end AetherGrid
