import LeasePool.Proofs.Config.Spans
import LeasePool.Process.Run

/-!
# Starts that come after the check of a configuration

A configuration is checked once, before anything is done, and its texts are read again later on,
one by one, some of them after the process has claimed the leader lease. What has passed the check
can be read later on. The only text that the check does not look at is the address of the health
report. So a process whose leader controller has run its first cycle can still fail for its
configuration, but only for that address.
-/

namespace LeasePool

/-- What ends with a result has a result on the way. -/
theorem exists_ok_of_bind {ε α β : Type} {x : Except ε α} {f : α → Except ε β} {b : β}
    (h : x >>= f = .ok b) : ∃ a, x = .ok a ∧ f a = .ok b := by
  cases x with
  | error e => contradiction
  | ok a => exact ⟨a, rfl, h⟩

/-- What goes on after a test has passed the test. -/
theorem not_of_throw_ne {ε α : Type} {P : Prop} [Decidable P] {e : ε} {f : PUnit → Except ε α}
    {a : α} (h : (if P then throw e >>= f else f ⟨⟩) = .ok a) : ¬ P ∧ f ⟨⟩ = .ok a := by
  by_cases bad : P
  · rw [if_pos bad] at h
    contradiction
  · rw [if_neg bad] at h
    exact ⟨bad, h⟩

namespace ProcessConfig

/-- The pool has a name, no number is out of bounds, all texts that the start of a process reads
can be read, and all spans are positive. -/
structure IsUsable (c : ProcessConfig) : Prop where
  pool : Text.isBlankText c.settings.pool = false
  duration : ∀ role, 0 < (c.settings.lease.get role).duration
  replicas : 0 ≤ c.replicas
  store : ∃ kind, StoreKind.parse c.store = .ok kind
  identity : ∃ kind, IdentityKind.parse c.identity = .ok kind
  patience : ∃ d, parseSpan c.patience = .ok d ∧ 0 < d.nanoseconds
  grace : ∃ d, parseSpan c.grace = .ok d ∧ 0 < d.nanoseconds
  schedule : ∀ role, ∃ schedule, (c.settings.schedule.get role).schedule = .ok schedule ∧
    0 < schedule.interval.nanoseconds

/-- The interval of a schedule that was read is positive. -/
theorem pos_interval_of_schedule {s : ScheduleSettings} {schedule : Schedule}
    (h : s.schedule = .ok schedule) : 0 < schedule.interval.nanoseconds := by
  obtain ⟨interval, read, h⟩ := exists_ok_of_bind h
  obtain ⟨delay, -, h⟩ := exists_ok_of_bind h
  obtain rfl := Except.ok.inj h
  exact (isSpanText_of_parseSpan read).2

/-- **What has passed the check is usable.** -/
theorem isUsable_of_check {c : ProcessConfig} (valid : c.check = .ok ()) : c.IsUsable := by
  simp only [check] at valid
  obtain ⟨named, h⟩ := not_of_throw_ne valid
  obtain ⟨good, h⟩ := not_of_throw_ne h
  obtain ⟨enough, h⟩ := not_of_throw_ne h
  obtain ⟨store, hs, h⟩ := exists_ok_of_bind h
  obtain ⟨identity, hi, h⟩ := exists_ok_of_bind h
  obtain ⟨patience, hp, h⟩ := exists_ok_of_bind h
  obtain ⟨grace, hg, h⟩ := exists_ok_of_bind h
  obtain ⟨leader, hl, h⟩ := exists_ok_of_bind h
  obtain ⟨member, hm, -⟩ := exists_ok_of_bind h
  constructor
  · exact Bool.eq_false_iff.2 named
  · intro role
    have positive := not_or.1 good
    cases role with
    | leader => exact Int32.not_le.1 positive.2
    | member => exact Int32.not_le.1 positive.1
  · exact Int32.not_lt.1 enough
  · exact ⟨store, hs⟩
  · exact ⟨identity, hi⟩
  · exact ⟨patience, hp, (isSpanText_of_parseSpan hp).2⟩
  · exact ⟨grace, hg, (isSpanText_of_parseSpan hg).2⟩
  · intro role
    cases role with
    | leader => exact ⟨leader, hl, pos_interval_of_schedule hl⟩
    | member => exact ⟨member, hm, pos_interval_of_schedule hm⟩

/-- The address at which health should be reported, if it cannot be read. -/
def misaddress? (c : ProcessConfig) : Option String :=
  c.healthPort?.bind fun port =>
    let text := c.bind ++ ":" ++ toString port.toNat
    if SocketAddress.parse? text = none then some text else none

end ProcessConfig

/-! ## Deeds -/

namespace Settled

open World

variable {s : Settled} {role : Role} {primed : Bool} {rest : List Deed}

/-- The controller of a role is started, if the process takes the role. -/
theorem control_eq {schedule : Schedule}
    (h : (s.config.settings.schedule.get role).schedule = .ok schedule) :
    s.control role primed rest =
      if (s.config.settings.lease.get role).enabled then .control role schedule primed :: rest
      else rest := by
  rw [control, h]

/-- Health is reported if there is a port for it, unless the address cannot be read. -/
theorem reportHealth_cases (s : Settled) (rest : List Deed) :
    (∃ text, s.config.misaddress? = some text ∧
      s.reportHealth rest = [.fail (.invalidAddress text)]) ∨
    (s.config.misaddress? = none ∧
      (s.reportHealth rest = rest ∨ ∃ a, s.reportHealth rest = .reportHealth a :: rest)) := by
  rw [reportHealth, ProcessConfig.misaddress?]
  cases s.config.healthPort? with
  | none => exact .inr ⟨rfl, .inl rfl⟩
  | some port =>
    simp only [Option.bind_some]
    cases SocketAddress.parse? (s.config.bind ++ ":" ++ toString port.toNat) with
    | none => exact .inl ⟨_, if_pos rfl, rfl⟩
    | some a => exact .inr ⟨if_neg (Option.some_ne_none a), .inr ⟨a, rfl⟩⟩

/-- The deeds after the controllers have been started and the report of health. -/
def waits (s : Settled) : List Deed :=
  if s.config.settings.lease.member.enabled then [.awaitLease s.patience, .awaitEnd]
  else [.awaitEnd]

theorem fail_notMem_waits {e : StartError} : .fail e ∉ s.waits := by
  rw [waits]
  split <;> simp

end Settled

namespace World

variable {w : World} {grace draw : Nat} {signal : Option Nat} {deeds : List Deed} {e : StartError}

/-- **A life fails** for a failure that is certain, or because no lease has come in time. -/
theorem mem_of_live_failed (h : (w.live grace draw signal deeds).1 = .failed e) :
    (∃ p, e = .noLease p) ∨ .fail e ∈ deeds := by
  induction deeds generalizing w with
  | nil => contradiction
  | cons deed deeds ih =>
    cases deed with
    | control role schedule primed => exact (ih h).imp_right (List.mem_cons_of_mem _)
    | reportHealth a => exact (ih h).imp_right (List.mem_cons_of_mem _)
    | awaitLease limit =>
      simp only [live] at h
      split at h
      · exact (ih h).imp_right (List.mem_cons_of_mem _)
      · exact .inl ⟨_, (LifeEnd.failed.inj h).symm⟩
      · contradiction
    | awaitEnd =>
      cases signal with
      | none => contradiction
      | some moment => contradiction
    | fail e' =>
      obtain rfl := LifeEnd.failed.inj h
      exact .inr List.mem_cons_self

end World

namespace Settled

variable {s : Settled} {e : StartError}

/-- What a process does with a usable configuration. -/
theorem deeds_eq (usable : s.config.IsUsable) :
    ∃ leader member : Schedule, 0 < leader.interval.nanoseconds ∧
      0 < member.interval.nanoseconds ∧
      s.deeds =
        (if (s.config.settings.lease.get .leader).enabled then [.control .leader leader true]
          else []) ++
        (if (s.config.settings.lease.get .member).enabled then [.control .member member false]
          else []) ++ s.reportHealth s.waits := by
  obtain ⟨leader, hl, often⟩ := usable.schedule .leader
  obtain ⟨member, hm, often'⟩ := usable.schedule .member
  refine ⟨leader, member, often, often', ?_⟩
  change s.control .leader true (s.control .member false (s.reportHealth s.waits)) = _
  rw [control_eq hl, control_eq hm]
  cases (s.config.settings.lease.get .leader).enabled <;>
    cases (s.config.settings.lease.get .member).enabled <;> rfl

/-- **The only failure that is certain** is that of an address that cannot be read. -/
theorem fail_mem_deeds (usable : s.config.IsUsable) :
    .fail e ∈ s.deeds ↔ ∃ text, s.config.misaddress? = some text ∧ e = .invalidAddress text := by
  obtain ⟨leader, member, -, -, deeds⟩ := deeds_eq usable
  have here : .fail e ∈ s.deeds ↔ .fail e ∈ s.reportHealth s.waits := by
    rw [deeds]
    split <;> split <;> simp
  rw [here]
  rcases reportHealth_cases s s.waits with ⟨text, wrong, report⟩ | ⟨right, report | ⟨a, report⟩⟩
  · simp [wrong, report]
  · simp [right, report, fail_notMem_waits]
  · simp [right, report, fail_notMem_waits]

/-- The intervals of all controllers are positive. -/
theorem pos_interval_of_mem_deeds {role : Role} {schedule : Schedule} {primed : Bool}
    (usable : s.config.IsUsable) (h : .control role schedule primed ∈ s.deeds) :
    0 < schedule.interval.nanoseconds := by
  obtain ⟨leader, member, often, often', deeds⟩ := deeds_eq usable
  have later : .control role schedule primed ∉ s.reportHealth s.waits := by
    have waits : .control role schedule primed ∉ s.waits := by
      rw [Settled.waits]
      split <;> simp
    rcases reportHealth_cases s s.waits with ⟨text, -, report⟩ | ⟨-, report | ⟨a, report⟩⟩ <;>
      simp [report, waits]
  rw [deeds, List.mem_append, List.mem_append] at h
  rcases h with (h | h) | h
  · split at h
    · obtain ⟨-, rfl, -⟩ := Deed.control.inj (List.mem_singleton.1 h)
      exact often
    · contradiction
  · split at h
    · obtain ⟨-, rfl, -⟩ := Deed.control.inj (List.mem_singleton.1 h)
      exact often'
    · contradiction
  · exact absurd h later

/-- **Every life fails** for an address that cannot be read. -/
theorem live_of_misaddress {text : String} {w : World} {grace draw : Nat} {signal : Option Nat}
    (usable : s.config.IsUsable) (wrong : s.config.misaddress? = some text) :
    (w.live grace draw signal s.deeds).1 = .failed (.invalidAddress text) := by
  obtain ⟨leader, member, -, -, deeds⟩ := deeds_eq usable
  rcases reportHealth_cases s s.waits with ⟨text', wrong', report⟩ | ⟨right, -⟩
  · obtain rfl := Option.some.inj (wrong.symm.trans wrong')
    rw [deeds, report]
    split <;> split <;> rfl
  · rw [right] at wrong
    contradiction

end Settled

/-! ## Starts -/

namespace Surroundings

variable {s : Surroundings} {c : ProcessConfig}

/-- How a process starts with a configuration. -/
structure Starts (s : Surroundings) (c : ProcessConfig) : Prop where
  usable : c.IsUsable
  /-- What does not depend on others is settled, unless the surroundings do not say who the process
  is or where the store is. -/
  settles : (∃ settled, s.settle c = .ok settled) ∨
    ∃ p, s.settle c = .error (.noIdentity p) ∨ s.settle c = .error (.noStore p)
  /-- The process waits for positive times only, and its controllers have positive intervals. -/
  positive : ∀ settled, s.settle c = .ok settled →
    0 < settled.patience.nanoseconds ∧ 0 < settled.grace.nanoseconds ∧
    ∀ role schedule primed, .control role schedule primed ∈ settled.deeds →
      0 < schedule.interval.nanoseconds
  /-- The leader controller comes first, if there is one, and has run a cycle before the rest. -/
  leads : ∀ settled, s.settle c = .ok settled → (c.settings.lease.get .leader).enabled = true →
    ∃ schedule rest, settled.deeds = .control .leader schedule true :: rest
  /-- The only failure that is certain is that of an address that cannot be read. -/
  fails : ∀ settled, s.settle c = .ok settled → ∀ e,
    .fail e ∈ settled.deeds ↔ ∃ text, c.misaddress? = some text ∧ e = .invalidAddress text
  /-- No life fails but for such an address, or because no lease has come in time, whatever world
  it is led in: whatever is stored there, and whether or not the store can be reached... -/
  lives : ∀ settled, s.settle c = .ok settled → ∀ (w : World) grace draw signal e,
    (w.live grace draw signal settled.deeds).1 = .failed e →
      (∃ p, e = .noLease p) ∨ ∃ text, c.misaddress? = some text ∧ e = .invalidAddress text
  /-- ... and every life fails for such an address. -/
  misled : ∀ settled, s.settle c = .ok settled → ∀ text, c.misaddress? = some text →
    ∀ (w : World) grace draw signal,
      (w.live grace draw signal settled.deeds).1 = .failed (.invalidAddress text)

/-- Who the process is. -/
def identity (s : Surroundings) (c : ProcessConfig) : IdentityKind → Except StartError Identity
  | .cluster => orFail .noIdentity (s.identitySources c).cluster
  | .alone => .ok ((s.identitySources c).development s.pid)

/-- Where the leases are. -/
def site (s : Surroundings) (c : ProcessConfig) : StoreKind → Except StartError StoreSite
  | .memory => .ok .memory
  | .kubernetes => (orFail .noStore (ApiServer.ofAccess c.cluster s.env s.files)).map .server

theorem identity_cases {kind : IdentityKind} :
    (∃ a, s.identity c kind = .ok a) ∨ ∃ p, s.identity c kind = .error (.noIdentity p) := by
  cases kind with
  | alone => exact .inl ⟨_, rfl⟩
  | cluster =>
    simp only [identity]
    cases (s.identitySources c).cluster with
    | ok a => exact .inl ⟨a, rfl⟩
    | error p => exact .inr ⟨p, rfl⟩

theorem site_cases {kind : StoreKind} :
    (∃ a, s.site c kind = .ok a) ∨ ∃ p, s.site c kind = .error (.noStore p) := by
  cases kind with
  | memory => exact .inl ⟨_, rfl⟩
  | kubernetes =>
    simp only [site]
    cases ApiServer.ofAccess c.cluster s.env s.files with
    | ok a => exact .inl ⟨.server a, rfl⟩
    | error p => exact .inr ⟨p, rfl⟩

/-- First all texts are read, and then the surroundings are looked at. -/
theorem settle_eq {store : StoreKind} {kind : IdentityKind} {patience grace : Span}
    (hs : StoreKind.parse c.store = .ok store) (hi : IdentityKind.parse c.identity = .ok kind)
    (hp : parseSpan c.patience = .ok patience) (hg : parseSpan c.grace = .ok grace) :
    s.settle c = s.identity c kind >>= fun identity => s.site c store >>= fun site =>
      return { config := c, identity, site, patience, grace } := by
  rw [settle, hs, hi, hp, hg]
  cases kind <;> cases store <;> rfl

/-- What does not depend on others is settled with a usable configuration. -/
theorem settle_cases (usable : c.IsUsable) :
    (∃ settled, s.settle c = .ok settled ∧ settled.config = c ∧
      0 < settled.patience.nanoseconds ∧ 0 < settled.grace.nanoseconds) ∨
    ∃ p, s.settle c = .error (.noIdentity p) ∨ s.settle c = .error (.noStore p) := by
  obtain ⟨store, hs⟩ := usable.store
  obtain ⟨kind, hi⟩ := usable.identity
  obtain ⟨patience, hp, patient⟩ := usable.patience
  obtain ⟨grace, hg, graceful⟩ := usable.grace
  rw [settle_eq hs hi hp hg]
  rcases identity_cases (s := s) (c := c) with ⟨identity, known⟩ | ⟨p, unknown⟩
  · rcases site_cases (s := s) (c := c) with ⟨site, found⟩ | ⟨p, missing⟩
    · rw [known, found]
      exact .inl ⟨_, rfl, rfl, patient, graceful⟩
    · rw [known, missing]
      exact .inr ⟨p, .inr rfl⟩
  · rw [unknown]
    exact .inr ⟨p, .inl rfl⟩

/-- With a usable configuration, a start fails for nothing in it but the address. -/
theorem starts_of_isUsable (usable : c.IsUsable) : s.Starts c := by
  have config : ∀ settled, s.settle c = .ok settled → settled.config = c ∧
      0 < settled.patience.nanoseconds ∧ 0 < settled.grace.nanoseconds := by
    intro settled h
    rcases settle_cases usable with ⟨settled', h', which⟩ | ⟨p, failed | failed⟩
    · obtain rfl := Except.ok.inj (h.symm.trans h')
      exact which
    · rw [failed] at h
      contradiction
    · rw [failed] at h
      contradiction
  constructor
  · exact usable
  · rcases settle_cases usable with ⟨settled, h, -⟩ | failed
    · exact .inl ⟨settled, h⟩
    · exact .inr failed
  · intro settled h
    obtain ⟨rfl, patient, graceful⟩ := config settled h
    exact ⟨patient, graceful, fun _ _ _ => Settled.pos_interval_of_mem_deeds usable⟩
  · intro settled h leads
    obtain ⟨rfl, -⟩ := config settled h
    obtain ⟨leader, member, -, -, deeds⟩ := Settled.deeds_eq usable
    rw [deeds, if_pos leads, List.append_assoc]
    exact ⟨leader, _, rfl⟩
  · intro settled h e
    obtain ⟨rfl, -⟩ := config settled h
    exact Settled.fail_mem_deeds usable
  · intro settled h w grace draw signal e failed
    obtain ⟨rfl, -⟩ := config settled h
    exact (World.mem_of_live_failed failed).imp_right (Settled.fail_mem_deeds usable).1
  · intro settled h text wrong w grace draw signal
    obtain ⟨rfl, -⟩ := config settled h
    exact Settled.live_of_misaddress usable wrong

/-- What a process is configured with has passed the check. -/
theorem check_of_configure {o : Options} (h : s.configure o = .ok c) : c.check = .ok () := by
  have passed : ∀ given : ProcessConfig, (orFail StartError.invalidConfig (o.apply given).check >>=
      fun _ => pure (o.apply given)) = .ok c → c.check = .ok () := by
    intro given h
    obtain ⟨_, checked, h⟩ := exists_ok_of_bind h
    obtain rfl := Except.ok.inj h
    cases valid : (o.apply given).check with
    | ok => rfl
    | error e =>
      rw [valid] at checked
      contradiction
  -- Wherever the configuration comes from, the options and the check come last.
  simp only [configure] at h
  split at h
  · exact passed _ h
  · obtain ⟨text, -, h⟩ := exists_ok_of_bind h
    split at h
    · exact passed _ h
    · contradiction

/-- **Why a process fails** that was called with some arguments: before it has done anything,
because there is no valid configuration, or because the surroundings lack something; and later on
because there is no lease, or for the address of the health report. -/
theorem failed_of_run {arguments : List String} {now : Stamp} {draw : Nat} {signal : Option Nat}
    {e : StartError} (h : s.run arguments now draw signal = .life (.failed e)) :
    (∃ o, s.configure o = .error e) ∨ (∃ p, e = .noIdentity p ∨ e = .noStore p ∨ e = .noLease p) ∨
      ∃ o c text, s.configure o = .ok c ∧ c.misaddress? = some text ∧ e = .invalidAddress text := by
  rw [run] at h
  split at h
  · contradiction
  · contradiction
  · rename_i o _
    split at h
    · contradiction
    · split at h
      · rename_i e' failed
        obtain rfl := LifeEnd.failed.inj (Outcome.life.inj h)
        exact .inl ⟨o, failed⟩
      · rename_i c configured
        have valid := check_of_configure configured
        have starts : s.Starts c := starts_of_isUsable (ProcessConfig.isUsable_of_check valid)
        split at h
        · rename_i e' failed
          obtain rfl := LifeEnd.failed.inj (Outcome.life.inj h)
          rcases starts.settles with ⟨settled, done⟩ | ⟨p, unknown | missing⟩
          · rw [failed] at done
            contradiction
          · exact .inr (.inl ⟨p, .inl (Except.error.inj (failed.symm.trans unknown))⟩)
          · exact .inr (.inl ⟨p, .inr (.inl (Except.error.inj (failed.symm.trans missing)))⟩)
        · rename_i settled done
          rcases starts.lives settled done _ _ draw signal e (Outcome.life.inj h) with
            ⟨p, late⟩ | ⟨text, wrong, reported⟩
          · exact .inr (.inl ⟨p, .inr (.inr late)⟩)
          · exact .inr (.inr ⟨o, c, text, configured, wrong, reported⟩)

/-- **A start after the check fails for no fault of the configuration, but for the address** of the
health report, and for that it always fails, after the first cycle of the leader controller.
Everything else that the start reads can be read, and is positive where it has to be. -/
theorem starts_of_check (s : Surroundings) {c : ProcessConfig} (valid : c.check = .ok ()) :
    s.Starts c :=
  starts_of_isUsable (ProcessConfig.isUsable_of_check valid)

end Surroundings

/-! ## A process with a name for an address -/

/-- The surroundings of a process that say nothing. -/
def Surroundings.bare : Surroundings := { env := fun _ => none, files := .none, pid := "1" }

/-- A configuration for a process that is alone. -/
def ProcessConfig.alone : ProcessConfig := { store := "memory", identity := "local" }

/-- A process that is alone starts, and it fails for no fault of its configuration. -/
theorem Surroundings.starts_alone :
    ProcessConfig.alone.check = .ok () ∧
      ∃ settled, Surroundings.bare.settle .alone = .ok settled ∧
        ∀ now draw signal e, (settled.life now draw signal).1 = .failed e →
          ∃ p, e = .noLease p := by
  have valid : ProcessConfig.alone.check = .ok () := by with_unfolding_all rfl
  have right : ProcessConfig.alone.misaddress? = none := by decide +kernel
  have starts := starts_of_check .bare valid
  refine ⟨valid, _, by with_unfolding_all rfl, ?_⟩
  intro now draw signal e failed
  rcases starts.lives _ (by with_unfolding_all rfl) _ _ draw signal e failed with
    late | ⟨text, wrong, -⟩
  · exact late
  · rw [right] at wrong
    contradiction

/-- The same with the name of a host, where a number should be. -/
def ProcessConfig.astray : ProcessConfig := { alone with bind := "localhost" }

/-- The process that is settled with this configuration. -/
def Settled.astray : Settled where
  config := .astray
  identity := ⟨"default", "dev-1"⟩
  site := .memory
  patience := .ofMillis 30000
  grace := .ofMillis 10000

/-- **A configuration that has passed the check fails** when the leader lease has been claimed. The
lease stays claimed. -/
theorem Settled.fails_astray :
    ProcessConfig.astray.check = .ok () ∧ Surroundings.bare.settle .astray = .ok .astray ∧
      (Settled.astray.life (.utc ⟨0⟩) 0 none).1 = .failed (.invalidAddress "localhost:8080") ∧
      ((Settled.astray.life (.utc ⟨0⟩) 0 none).2.scene.store.lease? "default"
        (leaderLeaseName "flow-pool")).any (fun l => l.isHeldBy "dev-1") = true := by
  have valid : ProcessConfig.astray.check = .ok () := by with_unfolding_all rfl
  refine ⟨valid, by with_unfolding_all rfl, ?_, by decide +kernel⟩
  exact live_of_misaddress (ProcessConfig.isUsable_of_check valid) (by decide +kernel)

end LeasePool
