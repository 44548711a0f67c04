import LeasePool.Proofs.Json.Texts
import LeasePool.Proofs.Kubernetes.Bodies
import LeasePool.Proofs.Store.Versions

/-!
# The server answers as the store in memory

A call to the store in memory has one of few outcomes: an object, an object that is not there, a
lost race, or no answer at all. A server tells them apart by the status of its response and the
document in its body. Whoever hears from the server what the store in memory would have answered
comes to the same answer, with the times of leases as they are stored.

An object is heard of as its document is read. What cannot be read back is lost on the way: values
that nest too deep, members in the place of others, and numbers that the reader takes for others.
-/

namespace LeasePool

open Json

/-! ## Forms -/

/-- The values that stand for a lease: its metadata and its claim, and whatever else. -/
def Lease.HasForm (l : Lease) (v : Json) : Prop :=
  v.get? "metadata" = some l.metadata.encode ∧ v.get? "spec" = some l.claim.encode

/-- The values that stand for a list of leases. -/
def Lease.ListHasForm (ls : List Lease) (v : Json) : Prop :=
  ∃ vs, v.get? "items" = some (.array vs) ∧ List.Forall₂ HasForm ls vs

/-- The values that stand for a workload: its metadata, and an object with the number of pods
that it wants if it wants any. -/
def Workload.HasForm (w : Workload) (v : Json) : Prop :=
  v.get? "metadata" = some w.metadata.encode ∧
    (v.get? "spec" = none ∧ w.replicas = none ∨
      ∃ ms, v.get? "spec" = some (.object ms) ∧
        (Json.object ms).get? "replicas" = w.replicas.map Claim.int32)

/-- The response is a success, and its body is read as a layout of such a value that nests at most
`d` deep. -/
def Http.Response.Carries (d : Nat) (form : Json → Prop) (r : Http.Response) : Prop :=
  r.isSuccess = true ∧ ∃ x v, Json.ofBytes? r.body = some x ∧ x.Shows d v ∧ form v

/-- A success with a document in its body. -/
def Http.successWith (x : Json) : Http.Response :=
  ⟨200, x.bytes⟩

/-- A document carries a value that it shows, if the reader takes its numbers for what they are. -/
theorem Http.carries_successWith {d : Nat} {form : Json → Prop} {x v : Json} (shows : x.Shows d v)
    (hasForm : form v) (readable : x.isReadable = true) : (Http.successWith x).Carries d form :=
  ⟨rfl, x, v, ofBytes?_bytes readable, shows, hasForm⟩

/-- There is no response, or one with a status of failure that has no meaning of its own. -/
def Http.IsOutage : Option Http.Response → Prop
  | none => True
  | some r => 400 ≤ r.status ∧ r.status < 600 ∧ r.status ≠ 404 ∧ r.status ≠ 409

namespace StoreCall

/-- The response stands for an answer, in a document that nests at most `d` deep. -/
def ConveysAnswer (d : Nat) (r : Http.Response) : (call : StoreCall) → call.Answer → Prop
  | .getLease .., none | .getWorkload .., none => r.status = 404
  | .getLease .., some l | .createLease _, l | .updateLease _, l => r.Carries d l.HasForm
  | .listLeases .., ls => r.Carries d (Lease.ListHasForm ls)
  | .getWorkload .., some w => r.Carries d w.HasForm

/-- The response stands for an error. -/
def ConveysError : Option Http.Response → PoolError → Prop
  | some r, .conflict .. => r.status = 409
  | some r, .notFound .. => r.status = 404
  | response, .unavailable _ => Http.IsOutage response
  | _, _ => False

/-- The response stands for an outcome of a call, in a document that nests at most `d` deep. -/
def Conveys (d : Nat) (response : Option Http.Response) (call : StoreCall) : call.Reply → Prop
  | .ok a => ∃ r, response = some r ∧ call.ConveysAnswer d r a
  | .error e => ConveysError response e

/-- An answer with the times of its leases as they are stored. -/
def stored : (call : StoreCall) → call.Answer → call.Answer
  | .getLease .., l => l.map Lease.stored
  | .createLease _, l | .updateLease _, l => l.stored
  | .listLeases .., ls => ls.map Lease.stored
  | .getWorkload .., w => w

/-- The replies have the same outcome. Of two outages the causes may differ. -/
def Agrees (call : StoreCall) (reply other : call.Reply) : Prop :=
  match reply with
  | .ok a => other = .ok (call.stored a)
  | .error (.unavailable _) => ∃ outage, other = .error (.unavailable outage)
  | .error e => other = .error e

/-! ## Reading a response -/

variable {call : StoreCall} {r : Http.Response} {α : Type} {read : Json → Option α} {a : α}

/-- A success is what its body is read as. -/
theorem outcome_of_body {x : Json} (success : r.isSuccess = true)
    (body : Json.ofBytes? r.body = some x) : call.outcome read r =
      match read x with
      | some a => .ok a
      | none => .error (.undecodable call.subject call.target) := by
  cases found : read x <;> simp [outcome, success, body, found]

theorem outcome_of_carries {form : Json → Prop} (carries : r.Carries depthLimit form)
    (H : ∀ x v, x.Shows depthLimit v → form v → read x = some a) : call.outcome read r = .ok a := by
  obtain ⟨success, x, v, body, shows, hasForm⟩ := carries
  rw [outcome_of_body success body, H x v shows hasForm]

theorem optional_of_carries {form : Json → Prop} (carries : r.Carries depthLimit form)
    (H : ∀ x v, x.Shows depthLimit v → form v → read x = some a) :
    call.optional read r = .ok (some a) := by
  have here : r.status ≠ 404 := by
    have success := carries.1
    intro missing
    rw [Http.Response.isSuccess, missing] at success
    contradiction
  rw [optional, if_neg here, outcome_of_carries carries H]
  rfl

/-- Anything else is an error. -/
theorem outcome_of_failure (failure : 400 ≤ r.status) :
    call.outcome read r = .error (call.errorOf r) := by
  have noSuccess : ¬ r.isSuccess = true := by
    rw [Http.Response.isSuccess, Bool.and_eq_true, decide_eq_true_eq, decide_eq_true_eq]
    omega
  rw [outcome, if_neg noSuccess]

/-- An outage stays an outage. -/
theorem replyOf_of_isOutage (outage : Http.IsOutage (some r)) :
    ∃ o, call.replyOf r = .error (.unavailable o) := by
  obtain ⟨low, -, found, free⟩ := outage
  obtain ⟨o, error⟩ : ∃ o, call.errorOf r = .unavailable o :=
    ⟨_, by rw [errorOf, if_neg free, if_neg found]⟩
  refine ⟨o, ?_⟩
  rw [← error]
  cases call with
  | getLease | getWorkload =>
    rw [replyOf, optional, if_neg found, outcome_of_failure low]
    rfl
  | createLease | updateLease | listLeases => rw [replyOf, outcome_of_failure low]

end StoreCall

/-! ## Reading objects -/

/-- A lease that can be written down: its times have years of four digits, and what it keeps is
apart from what it gives a meaning to. -/
structure Lease.IsOrdinary (l : Lease) : Prop where
  years : l.HasFourDigitYears
  metadata : l.metadata.IsPlain
  claim : l.claim.IsPlain

theorem Lease.decode?_of_hasForm {l : Lease} {d : Nat} {x v : Json} (ordinary : l.IsOrdinary)
    (shows : x.Shows d v) (form : l.HasForm v) : decode? d x = some l.stored :=
  decode?_of_shows ordinary.years ordinary.metadata ordinary.claim shows form.1 form.2

theorem Lease.decodeList?_of_hasForm {ls : List Lease} {d : Nat} {x v : Json}
    (ordinary : ∀ l ∈ ls, l.IsOrdinary) (shows : x.Shows d v) (form : ListHasForm ls v) :
    decodeList? d x = some (ls.map Lease.stored) := by
  obtain ⟨vs, items, each⟩ := form
  obtain ⟨d, ms, rfl, rfl⟩ := shows.exists_members_of_get? items
  obtain ⟨y, found, showsItems⟩ := shows.exists_member items
  obtain ⟨d, xs, rfl, rfl, listed⟩ := showsItems.exists_items
  have leases : xs.mapM (decode? (d + 1 + 1 - 2)) = some (ls.map Lease.stored) := by
    change xs.mapM (decode? d) = _
    rw [mapM_eq_some, List.forall₂_map_right_iff]
    clear found showsItems shows items
    induction each generalizing xs with
    | nil =>
      cases listed
      exact .nil
    | @cons l v ls vs form _ ih =>
      cases listed with
      | cons first later =>
        obtain ⟨here, there⟩ := List.forall_mem_cons.1 ordinary
        exact .cons (decode?_of_hasForm here first form) (ih there _ later)
  rw [decodeList?, record?]
  simp only [isLongerThan, fields?, List.mapM_cons, List.mapM_nil,
    single?_eq_get? shows.lists.nodup_keys, found, Bool.false_eq_true, if_false,
    Option.bind_eq_bind, Option.bind_some, Option.pure_def, defaulted?, orNull?, leases,
    Option.map_some, Option.getD_some]

theorem Workload.decode?_of_hasForm {w : Workload} {d : Nat} {x v : Json}
    (plain : w.metadata.IsPlain) (shows : x.Shows d v) (form : w.HasForm v) :
    decode? w.kind d x = some w := by
  obtain ⟨metadata, spec⟩ := form
  obtain ⟨d, ms, rfl, rfl⟩ := shows.exists_members_of_get? metadata
  obtain ⟨y, found, showsMetadata⟩ := shows.exists_member metadata
  have readMetadata := Metadata.decode?_of_shows plain showsMetadata
  have replicas : defaulted? none replicas? ((Table.ofList ms).get? "spec") = some w.replicas := by
    rcases spec with ⟨absent, none⟩ | ⟨vs, present, written⟩
    · rw [shows.get?_eq_none absent, none]
      rfl
    · obtain ⟨z, foundSpec, showsSpec⟩ := shows.exists_member present
      obtain ⟨e, ns, rfl, rfl⟩ := showsSpec.exists_members
      have listed := showsSpec.lists.get? (k := "replicas")
      rw [written] at listed
      rw [foundSpec, defaulted?, replicas?, single?_eq_get? showsSpec.lists.nodup_keys]
      exact defaulted?_of_lists_scalar (fun n => ⟨rfl, Claim.orNull?_int32 n⟩) listed
  simp only [decode?, record?, isLongerThan, fields?, List.mapM_cons, List.mapM_nil,
    single?_eq_get? shows.lists.nodup_keys, found, Bool.false_eq_true, if_false,
    Option.bind_eq_bind, Option.bind_some, Option.pure_def, required?, Nat.add_sub_cancel,
    readMetadata, replicas]

/-! ## The store in memory -/

/-- All that is in the store can be written down. -/
structure MemoryStore.IsOrdinary (s : MemoryStore) : Prop where
  leases : ∀ k l, s.leases.get? k = some l → l.IsOrdinary
  workloads : ∀ w ∈ s.workloads, w.metadata.IsPlain

namespace StoreCall

variable {store : MemoryStore} {call : StoreCall} {r : Http.Response}

/-- The lease that a call writes. -/
def lease? : StoreCall → Option Lease
  | createLease l | updateLease l => some l
  | _ => none

/-- The answer is about objects that can be written down, and of the kind that was asked for. -/
def IsOrdinaryAnswer : (call : StoreCall) → call.Answer → Prop
  | .getLease .., answer => ∀ l, answer = some l → l.IsOrdinary
  | .createLease _, l | .updateLease _, l => l.IsOrdinary
  | .listLeases .., ls => ∀ l ∈ ls, l.IsOrdinary
  | .getWorkload kind .., answer => ∀ w, answer = some w → w.kind = kind ∧ w.metadata.IsPlain

/-- The errors that a call to the store in memory ends with. -/
inductive IsRefusal (call : StoreCall) : PoolError → Prop where
  | offline : IsRefusal call (.unavailable .offline)
  | conflict : IsRefusal call (.conflict call.subject call.target)
  | notFound (writes : call.lease?.isSome) : IsRefusal call (.notFound call.subject call.target)

/-- **The outcomes of calls to the store in memory.** -/
theorem outcome_answer (ordinary : store.IsOrdinary)
    (written : ∀ l, call.lease? = some l → l.IsOrdinary) :
    (∃ a, (store.answer call).2 = .ok a ∧ call.IsOrdinaryAnswer a) ∨
      ∃ e, (store.answer call).2 = .error e ∧ call.IsRefusal e := by
  by_cases offline : store.offline = true
  · rw [MemoryStore.answer_of_offline offline]
    exact .inr ⟨_, rfl, .offline⟩
  cases call with
  | getLease ns name =>
    rw [MemoryStore.answer, if_neg offline]
    exact .inl ⟨_, rfl, fun l found => ordinary.leases _ l found⟩
  | getWorkload kind ns name =>
    rw [MemoryStore.answer, if_neg offline]
    refine .inl ⟨_, rfl, fun w found => ⟨?_, ?_⟩⟩
    · have pick := List.find?_some found
      simp only [Bool.and_eq_true, decide_eq_true_eq] at pick
      exact pick.1.1
    · exact ordinary.workloads w (List.mem_of_find?_eq_some found)
  | listLeases ns selector =>
    rw [MemoryStore.answer, if_neg offline]
    refine .inl ⟨_, rfl, fun l hl => ?_⟩
    obtain ⟨e, he, rfl⟩ := List.mem_map.1 (List.mem_filter.1 hl).1
    exact ordinary.leases e.1 e.2 (Table.get?_eq_some_iff.2 (List.mem_filter.1 he).1)
  | createLease l =>
    rw [MemoryStore.answer, if_neg offline]
    have ordinaryLease := written l rfl
    cases free : store.leases.get? l.key with
    | some stored =>
      rw [MemoryStore.create_of_taken free]
      exact .inr ⟨_, rfl, .conflict⟩
    | none =>
      rw [MemoryStore.create_of_free free]
      exact .inl ⟨_, rfl, ordinaryLease.years, ordinaryLease.metadata, ordinaryLease.claim⟩
  | updateLease l =>
    rw [MemoryStore.answer, if_neg offline]
    have ordinaryLease := written l rfl
    cases there : store.leases.get? l.key with
    | none =>
      rw [MemoryStore.update_of_missing there]
      exact .inr ⟨_, rfl, .notFound rfl⟩
    | some stored =>
      by_cases shows : MemoryStore.Shows l stored
      · rw [MemoryStore.update_of_shows there shows]
        exact .inl ⟨_, rfl, ordinaryLease.years, ordinaryLease.metadata, ordinaryLease.claim⟩
      · rw [MemoryStore.update_of_not_shows there shows]
        exact .inr ⟨_, rfl, .conflict⟩

/-- **An answer that a response stands for is read from it.** -/
theorem replyOf_of_conveysAnswer {a : call.Answer} (ordinary : call.IsOrdinaryAnswer a)
    (conveyed : call.ConveysAnswer depthLimit r a) : call.replyOf r = .ok (call.stored a) := by
  cases call with
  | getLease ns name =>
    cases a with
    | none => exact if_pos conveyed
    | some l =>
      exact optional_of_carries conveyed
        fun x v shows form => Lease.decode?_of_hasForm (ordinary l rfl) shows form
  | getWorkload kind ns name =>
    cases a with
    | none => exact if_pos conveyed
    | some w =>
      obtain ⟨rfl, plain⟩ := ordinary w rfl
      exact optional_of_carries conveyed
        fun x v shows form => Workload.decode?_of_hasForm plain shows form
  | listLeases ns selector =>
    exact outcome_of_carries conveyed
      fun x v shows form => Lease.decodeList?_of_hasForm ordinary shows form
  | createLease l | updateLease l =>
    exact outcome_of_carries conveyed
      fun x v shows form => Lease.decode?_of_hasForm ordinary shows form

/-- A status of 409 is a lost race. -/
theorem replyOf_of_conflict (conflict : r.status = 409) :
    call.replyOf r = .error (.conflict call.subject call.target) := by
  have failure : 400 ≤ r.status := by omega
  have error : call.errorOf r = .conflict call.subject call.target := if_pos conflict
  have here : r.status ≠ 404 := by omega
  rw [← error]
  cases call with
  | getLease | getWorkload =>
    rw [replyOf, optional, if_neg here, outcome_of_failure failure]
    rfl
  | createLease | updateLease | listLeases => rw [replyOf, outcome_of_failure failure]

/-- A status of 404 in response to a write is the absence of the object. -/
theorem replyOf_of_notFound (writes : call.lease?.isSome) (missing : r.status = 404) :
    call.replyOf r = .error (.notFound call.subject call.target) := by
  have failure : 400 ≤ r.status := by omega
  have free : ¬ r.status = 409 := by omega
  have error : call.errorOf r = .notFound call.subject call.target := by
    rw [errorOf, if_neg free, if_pos missing]
  rw [← error]
  cases call with
  | getLease | getWorkload | listLeases => contradiction
  | createLease | updateLease => rw [replyOf, outcome_of_failure failure]

/-- **What is read from a response is the outcome that it stands for.** -/
theorem agrees_replyOf (ordinary : store.IsOrdinary)
    (written : ∀ l, call.lease? = some l → l.IsOrdinary)
    (conveyed : call.Conveys depthLimit (some r) (store.answer call).2) :
    call.Agrees (store.answer call).2 (call.replyOf r) := by
  rcases outcome_answer ordinary written with ⟨a, answer, ordinary⟩ | ⟨e, answer, refusal⟩
  · rw [answer] at conveyed ⊢
    obtain ⟨_, same, conveyed⟩ := conveyed
    rw [← Option.some.inj same] at conveyed
    exact replyOf_of_conveysAnswer ordinary conveyed
  · rw [answer] at conveyed ⊢
    cases refusal with
    | offline => exact replyOf_of_isOutage conveyed
    | conflict => exact replyOf_of_conflict conveyed
    | notFound writes => exact replyOf_of_notFound writes conveyed

/-- No response at all is an outage. -/
theorem agrees_unanswered (ordinary : store.IsOrdinary)
    (written : ∀ l, call.lease? = some l → l.IsOrdinary)
    (conveyed : call.Conveys depthLimit none (store.answer call).2) :
    call.Agrees (store.answer call).2 (.error (.unavailable .unanswered)) := by
  rcases outcome_answer ordinary written with ⟨a, answer, -⟩ | ⟨e, answer, refusal⟩
  · rw [answer] at conveyed
    obtain ⟨_, same, -⟩ := conveyed
    contradiction
  · rw [answer] at conveyed ⊢
    cases refusal with
    | offline => exact ⟨_, rfl⟩
    | conflict | notFound => exact conveyed.elim

end StoreCall

/-! ## Calls to the server -/

namespace ApiServer

open Http (successWith)

variable {s : ApiServer} {files : Files} {send : Http.Request → Option Http.Response}
  {store : MemoryStore} {call : StoreCall} {token : Option String}

/-- The request for a call. -/
theorem exists_request? (s : ApiServer) (token : Option String)
    (written : ∀ l, call.lease? = some l → l.IsOrdinary) :
    ∃ request, s.request? token call = some request ∧ request.token = token ∧
      request.body = call.lease?.map Lease.body := by
  cases call with
  | getLease | getWorkload | listLeases => exact ⟨_, rfl, rfl, rfl⟩
  | createLease l | updateLease l =>
    have body := Lease.leaseBody?_eq (written l rfl).years
    rw [request?, body]
    exact ⟨_, rfl, rfl, rfl⟩

/-- **Calls to the server end like calls to the store in memory.** The request for a call is
sent, and if the response stands for what the store in memory would have answered, the reply
agrees with it. A lease that is written is read from the body of the request as it is stored, and
from the text of the body, too, if the reader takes the numbers in it for what they are. -/
theorem agrees_of_conveys (ordinary : store.IsOrdinary)
    (written : ∀ l, call.lease? = some l → l.IsOrdinary) (credentials : s.token files = .ok token)
    (sendable : (token.getD "").toList.all Http.isHeaderChar = true) :
    ∃ request, s.request? token call = some request ∧
      (call.Conveys depthLimit (send request) (store.answer call).2 →
        ∃ reply, s.exchange files send call = some (some request, reply) ∧
          call.Agrees (store.answer call).2 reply) ∧
      ∀ l, call.lease? = some l → ∃ body, request.body = some body ∧
        ∀ d, l.KeepsOthers (d - 2) → Lease.decode? d body = some l.stored ∧
          (body.isReadable = true →
            (Json.ofBytes? body.bytes).bind (Lease.decode? d) = some l.stored) := by
  obtain ⟨draft, begun, -, -⟩ := exists_request? s none written
  obtain ⟨request, made, signed, body⟩ := exists_request? s token written
  refine ⟨request, made, fun conveyed => ?_, fun l writes => ?_⟩
  · have ready : request.isSendable = true := by
      rw [Http.Request.isSendable, signed]
      exact sendable
    have exchanged : s.exchange files send call = match send request with
        | none => some (some request, .error (.unavailable .unanswered))
        | some response => some (some request, call.replyOf response) := by
      simp only [exchange, begun, credentials, made, ready, Option.bind_eq_bind, Option.bind_some,
        if_true]
      cases send request <;> rfl
    cases answer : send request with
    | none =>
      rw [answer] at conveyed exchanged
      exact ⟨_, exchanged, StoreCall.agrees_unanswered ordinary written conveyed⟩
    | some response =>
      rw [answer] at conveyed exchanged
      exact ⟨_, exchanged, StoreCall.agrees_replyOf ordinary written conveyed⟩
  · rw [writes] at body
    refine ⟨l.body, body, fun d kept => ?_⟩
    have read := Lease.decode?_body (written l writes).years kept
    exact ⟨read, fun readable => by rw [ofBytes?_bytes readable, Option.bind_some, read]⟩

/-- A member lease, renewed at a fraction of a microsecond by a clock two hours ahead of UTC. -/
def renewedLease : Lease where
  metadata := { name := "flow-pool-member-orders-00", ns := "ns"
                extra := .ofList [("annotations", .object [("contact", .string "ops")])] }
  claim := { holder := some "web-0", duration := some 30
             renewed := some ⟨⟨1735689600000000999⟩, 120⟩ }

/-- A store with a lease. -/
def storeOf (l : Lease) : MemoryStore where
  leases := .ofList [(l.key, l)]

theorem isOrdinary_storeOf {l : Lease} (ordinary : l.IsOrdinary) : (storeOf l).IsOrdinary where
  leases k m found := by
    rw [storeOf, Table.get?_ofList_cons, Table.get?_ofList_nil, Option.none_or,
      Option.ite_none_right_eq_some] at found
    rwa [← Option.some.inj found.2]
  workloads := List.forall_mem_nil _

/-- What a server answers when the lease has been updated. -/
def updatedDocument : Json := .object
  [("kind", .string "Lease"),
    ("spec", .object
      [("renewTime", .string "2025-01-01T00:00:00.000000Z"), ("leaseDurationSeconds", int 30),
        ("holderIdentity", .string "web-0")]),
    ("metadata", .object
      [("annotations", .object [("contact", .string "ops")]), ("resourceVersion", .string "1"),
        ("namespace", .string "ns"), ("name", .string "flow-pool-member-orders-00")])]

theorem isOrdinary_renewedLease : renewedLease.IsOrdinary where
  years := by
    refine ⟨fun s here => by contradiction, fun s here => ?_⟩
    rw [← Option.some.inj here]
    exact ⟨by decide, by decide⟩
  metadata := by decide
  claim := by decide

/-- A server on this machine, which asks for no token. -/
def localServer : ApiServer := { base := "http://127.0.0.1:8001" }

theorem conveys_update : StoreCall.Conveys depthLimit (some (successWith updatedDocument))
    (.updateLease renewedLease)
    ((storeOf renewedLease).answer (.updateLease renewedLease)).2 := by
  refine ⟨_, rfl, Http.carries_successWith ⟨?_, rfl⟩ ⟨?_, ?_⟩ ?_⟩
  · decide +kernel
  · decide +kernel
  · decide +kernel
  · decide +kernel

/-- The lease is updated, and its new version comes back. -/
theorem agrees_of_update :
    (storeOf renewedLease).IsOrdinary ∧
    (∀ l, (StoreCall.updateLease renewedLease).lease? = some l → l.IsOrdinary) ∧
    localServer.token Files.none = .ok none ∧
    StoreCall.Conveys depthLimit (some (successWith updatedDocument)) (.updateLease renewedLease)
      ((storeOf renewedLease).answer (.updateLease renewedLease)).2 ∧
    ∃ request, localServer.request? none (.updateLease renewedLease) = some request ∧
      ∃ reply, localServer.exchange Files.none (fun _ => some (successWith updatedDocument))
          (.updateLease renewedLease) = some (some request, reply) ∧
        StoreCall.Agrees (.updateLease renewedLease)
          ((storeOf renewedLease).answer (.updateLease renewedLease)).2 reply := by
  have ordinary := isOrdinary_storeOf isOrdinary_renewedLease
  have written : ∀ l, (StoreCall.updateLease renewedLease).lease? = some l → l.IsOrdinary := by
    intro l writes
    rw [← Option.some.inj writes]
    exact isOrdinary_renewedLease
  obtain ⟨request, made, agrees, -⟩ := @agrees_of_conveys localServer Files.none
    (fun _ => some (successWith updatedDocument)) (storeOf renewedLease)
    (.updateLease renewedLease) none ordinary written rfl rfl
  exact ⟨ordinary, written, rfl, conveys_update, request, made, agrees conveys_update⟩

/-! ## Where the store in memory goes further -/

/-- An array in an array, and so on. -/
def nested : Nat → Json
  | 0 => .null
  | n + 1 => .array [nested n]

/-- A lease with an annotation that nests as deep as it may in a document of its own. -/
def deepLease : Lease where
  metadata := { name := "orders", ns := "ns", extra := .ofList [("annotations", nested 125)] }

/-- A lease that keeps another name beside its own. -/
def shadowedLease : Lease where
  metadata := { name := "orders", ns := "ns", extra := .ofList [("name", .string "invoices")] }

/-- A lease that keeps the double next to a number of seventeen places. -/
def weighedLease (digits : Nat) : Lease where
  metadata :=
    { name := "orders", ns := "ns"
      extra := .ofList [("weight", .number (.double (.ofScientific digits true 17)))] }

/-- The double next to an eleventh, which is written `0.09090909090909091`. -/
def eleventh : Nat := 9090909090909091

/-- The lease that the body of a success is read as is the answer. -/
theorem replyOf_successWith {ns name : String} {x y : Json} {l : Lease}
    (parsed : Json.ofBytes? (successWith x).body = some y)
    (read : Lease.decode? depthLimit y = some l) :
    StoreCall.replyOf (.getLease ns name) (successWith x) = .ok (some l) := by
  have found : ¬ (successWith x).status = 404 := (by decide : ¬ 200 = 404)
  rw [StoreCall.replyOf, StoreCall.optional, if_neg found, StoreCall.outcome_of_body rfl parsed,
    read]
  rfl

/-- The list of the lease. -/
def deepList : Json := .object [("items", .array [deepLease.encode])]

/-- **Not every outcome can be told.** The store in memory lists a lease whose annotation is, in
the list, two levels beyond the depth that is read. It returns a lease that keeps another name,
which in an object would stand in place of its own, and one that keeps a number whose text is read
as another number. -/
theorem strays_beyond_objects :
    (∃ (r : Http.Response) (call : StoreCall),
      call.Conveys (depthLimit + 2) (some r) ((storeOf deepLease).answer call).2 ∧
      ¬ call.Agrees ((storeOf deepLease).answer call).2 (call.replyOf r)) ∧
    (∃ (r : Http.Response) (call : StoreCall),
      call.Conveys depthLimit (some r) ((storeOf shadowedLease).answer call).2 ∧
      ¬ call.Agrees ((storeOf shadowedLease).answer call).2 (call.replyOf r)) ∧
    ∃ (x : Json) (call : StoreCall),
      call = .getLease "ns" "orders" ∧ x.Shows depthLimit x ∧
      (weighedLease eleventh).HasForm x ∧
      ¬ call.Agrees ((storeOf (weighedLease eleventh)).answer call).2
        (call.replyOf (successWith x)) := by
  refine ⟨?_, ?_, ?_⟩
  · have parsed : Json.ofBytes? (successWith deepList).body = some deepList := by decide +kernel
    refine ⟨successWith deepList, .listLeases "ns" .empty,
      ⟨_, rfl, rfl, deepList, deepList, parsed, ⟨?_, ?_⟩, _, rfl, .cons ⟨rfl, rfl⟩ .nil⟩,
      fun agrees => ?_⟩
    · decide +kernel
    · decide +kernel
    · have unread : Lease.decodeList? depthLimit deepList = none := by decide +kernel
      have reply : StoreCall.replyOf (.listLeases "ns" .empty) (successWith deepList) =
          .error (.undecodable .leaseList "ns") := by
        rw [StoreCall.replyOf, StoreCall.outcome_of_body rfl parsed, unread]
        rfl
      obtain ⟨ls, same⟩ : ∃ ls : List Lease,
          StoreCall.replyOf (.listLeases "ns" .empty) (successWith deepList) = .ok ls := ⟨_, agrees⟩
      rw [reply] at same
      cases same
  · have parsed : Json.ofBytes? (successWith shadowedLease.encode).body =
        some shadowedLease.encode := by decide +kernel
    refine ⟨successWith shadowedLease.encode, .getLease "ns" "orders",
      ⟨_, rfl, rfl, shadowedLease.encode, _, parsed, ⟨?_, rfl⟩, ?_, ?_⟩, fun agrees => ?_⟩
    · decide +kernel
    · decide +kernel
    · decide +kernel
    · have read : Lease.decode? depthLimit shadowedLease.encode =
          some { metadata := { name := "invoices", ns := "ns" } } := by decide +kernel
      have same : StoreCall.replyOf (.getLease "ns" "orders") (successWith shadowedLease.encode) =
          .ok (some shadowedLease.stored) := agrees
      rw [replyOf_successWith parsed read] at same
      exact absurd (Except.ok.inj same) (by decide +kernel)
  · have parsed : Json.ofBytes? (successWith (weighedLease eleventh).encode).body =
        some (weighedLease (eleventh + 2)).encode := by decide +kernel
    refine ⟨(weighedLease eleventh).encode, _, rfl, ⟨rfl, ?_⟩, ⟨?_, ?_⟩, fun agrees => ?_⟩
    · decide +kernel
    · decide +kernel
    · decide +kernel
    · have read : Lease.decode? depthLimit (weighedLease (eleventh + 2)).encode =
          some (weighedLease (eleventh + 2)) := by decide +kernel
      have same : StoreCall.replyOf (.getLease "ns" "orders")
          (successWith (weighedLease eleventh).encode) =
            .ok (some (weighedLease eleventh).stored) := agrees
      rw [replyOf_successWith parsed read] at same
      exact absurd (Except.ok.inj same) (by decide +kernel)

end ApiServer

end LeasePool
