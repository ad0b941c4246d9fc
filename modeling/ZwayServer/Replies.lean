import ZwayServer.OneAnswer
import ZwayServer.Interleaving

/-!
# Replies in the order of requests

The packets of a session are handled one after the other, while the handlers of other sessions and
the tasks of the `io_service` come in between.  A client can still tell from its responses alone
which of its requests were answered: they come in the order of the requests, one for each.

* `asked` — the requests of a session whose handlers have begun, in order.
* `Replies` — responses that answer requests in their order.
* `replies_in_order` — under every interleaving the responses of a session answer its requests in
  their order, all of them but the one whose handler is under way.
-/

namespace ZwayServer

open ClientSession

/-! ## Requests and responses -/

/-- The handler of the event begins. -/
def Conc.Begins (C : Conc) (e : Event) : Prop :=
  C.server.terminated = false ∧ e.Enabled C.server ∧ C.Free e

instance (C : Conc) (e : Event) : Decidable (C.Begins e) := by
  unfold Conc.Begins
  infer_instance

/-- The request of the session `s` with which an event begins. -/
def Event.asks (s : SessionId) : Event → List UBJ.Object
  | request t head => if t = s then [head] else []
  | _ => []

/-- The requests of the session whose handlers have begun, in order. -/
def asked (env : Env) (s : SessionId) : List Move → List UBJ.Object
  | [] => []
  | .begin e :: ms =>
    if (afterMoves env ms).Begins e then asked env s ms ++ e.asks s else asked env s ms
  | .proceed .. :: ms => asked env s ms

/-- A request of a known type, with something to dispatch if that is what it asks for. -/
def Answerable (env : Env) (head : UBJ.Object) : Prop :=
  ∃ t, env.decode (head.get "requestType").toInt = some t ∧
    (t = .dispatch → head.hasField "dispatchId" = true)

/-- The responses answer the requests in their order; none is left out that can be answered. -/
inductive Replies (env : Env) : List UBJ.Object → List Response → Prop
  | nil : Replies env [] []
  | answer {heads : List UBJ.Object} {rs : List Response} {head : UBJ.Object} {r : Response}
      (h : Replies env heads rs) (hid : r.requestId = (head.get "requestId").toInt) :
      Replies env (heads ++ [head]) (rs ++ [r])
  | skip {heads : List UBJ.Object} {rs : List Response} {head : UBJ.Object}
      (h : Replies env heads rs) (hmute : ¬ Answerable env head) : Replies env (heads ++ [head]) rs

/-- No request is answered twice, and none before an earlier one. -/
theorem Replies.sublist {env : Env} {heads : List UBJ.Object} {rs : List Response}
    (h : Replies env heads rs) : (rs.map Response.requestId).Sublist
      (heads.map fun head => (head.get "requestId").toInt) := by
  induction h with
  | nil => exact .slnil
  | answer h hid ih =>
    rw [List.map_append, List.map_append, List.map_singleton, List.map_singleton, hid]
    exact ih.append_right _
  | skip h hmute ih =>
    rw [List.map_append]
    exact ih.trans (List.sublist_append_left ..)

/-- The answer to the last request is under way, or all have been answered. -/
inductive InTurn (env : Env) (s : SessionId) (C : Conc) (heads : List UBJ.Object) : Prop
  | all (h : Replies env heads (responses (C.server.sessions s).outbox))
  | butLast {earlier : List UBJ.Object} {head : UBJ.Object} (heads_eq : heads = earlier ++ [head])
      (h : Replies env earlier (responses (C.server.sessions s).outbox))
      (running : ∃ t ∈ C.running, t.event = .request s head)

/-! ## Who responds -/

section

variable {env : Env} {s : SessionId}

/-- Only the handler of a request of the session responds to it. -/
theorem request_of_respond {e : Event} {r : Response} (h : e.Footprint env (.respond s r)) :
    ∃ head, e = .request s head := by
  cases e with
  | request t head =>
    obtain ⟨type, -, h⟩ := h
    have hts : s = t := by cases type <;> simp at h <;> grind
    exact ⟨head, by rw [hts]⟩
  | userRequests k =>
    obtain ⟨t, ht⟩ := h
    exact ht.elim
  | _ => exact h.elim

/-- Other operations send the session no response. -/
theorem responses_exec {o : Op} (h : ∀ r, o ≠ .respond s r) (c : Choice) (σ : ServerState) :
    responses ((exec env o c σ).2.sessions s).outbox = responses (σ.sessions s).outbox := by
  by_cases ho : o.Silent
  · obtain ⟨ms, hms, hresponses⟩ := outbox_exec_silent env ho c σ s
    rw [hms, responses_append, hresponses, List.append_nil]
  · cases o with
    | respond t r =>
      have hts : s ≠ t := by
        rintro rfl
        exact h r rfl
      simp [exec, ServerState.send, hts]
    | terminate => rfl
    | _ => exact absurd trivial ho

theorem responses_note (e : Event) (σ : ServerState) :
    responses ((e.note σ).sessions s).outbox = responses (σ.sessions s).outbox := by
  cases e with
  | connect t | handshake t error => by_cases hs : s = t <;> simp [Event.note, hs]
  | _ => rfl

/-- What is left of a handler stays within the footprint of its event. -/
theorem footprint_afterMoves (env : Env) (ms : List Move) {i : Nat} {t : Thread}
    (h : (afterMoves env ms).thread i = some t) : Proc.Within (t.event.Footprint env) t.rest := by
  have hall : ∀ i t, (afterMoves env ms).thread i = some t →
      Proc.Within (t.event.Footprint env) t.rest := by
    refine Conc.invariant_afterMoves (R := fun _ => True)
      (P := fun C => ∀ i t, C.thread i = some t → Proc.Within (t.event.Footprint env) t.rest)
      ?_ ?_ fun _ _ => trivial
    · intro i t ht
      simp [Conc.thread] at ht
    · intro C m C' _ hstep hC
      cases hstep with
      | begin henabled hfree =>
        exact fun i t ht => Conc.forall_begun
          (Q := fun _ t => Proc.Within (t.event.Footprint env) t.rest)
          hC (within_program env _ _) (fun _ _ _ ht => ht) ht
      | perform hthread =>
        exact fun i t ht => Conc.forall_performed
          (Q := fun _ t => Proc.Within (t.event.Footprint env) t.rest)
          hthread hC (fun hown => hown.2 _ trivial) (fun _ _ _ _ ht => ht) ht
      | finish hthread =>
        exact fun i t ht => Conc.forall_finished
          (Q := fun _ t => Proc.Within (t.event.Footprint env) t.rest)
          hthread hC (fun _ _ _ ht => ht) ht
  exact hall i t h

end

/-! ## A handler with its answer -/

/-- The handler returns with its answer posted, if the request can be answered. -/
def Replying (env : Env) (s : SessionId) (head : UBJ.Object) (p : Prog Bool) (m : Answering) :
    Prop :=
  Proc.Follows (answering s (head.get "requestId").toInt) p m
    fun _ m => Answerable env head → m ≠ .waiting

theorem replying_processIncomingRequest (env : Env) (s : SessionId) (head : UBJ.Object) :
    Replying env s head (processIncomingRequest env s head) .waiting := by
  cases ht : env.decode (head.get "requestType").toInt with
  | none =>
    rw [processIncomingRequest, ht]
    rintro ⟨t, hknown, -⟩
    rw [ht] at hknown
    cases hknown
  | some t =>
    by_cases hfield : t = .dispatch → head.hasField "dispatchId" = true
    · refine (answers_processIncomingRequest ht hfield).weaken fun b m hm _ => ?_
      rintro rfl
      rcases hm with hm | ⟨r, hm, -⟩ <;> cases hm
    · -- a dispatch of nothing, which is answered only before a login
      obtain ⟨rfl, hnothing⟩ := Classical.not_imp.mp hfield
      have hmute : ¬ Answerable env head := by
        rintro ⟨t, hknown, hdispatch⟩
        rw [ht] at hknown
        cases hknown
        exact hnothing (hdispatch rfl)
      simp only [processIncomingRequest, ht]
      rw [processDispatchRequest]
      refine Proc.follows_bind.mpr ⟨.waiting, rfl, fun st => ?_⟩
      show Proc.Follows _ (ite _ _ _) _ _
      dsimp only
      rw [if_neg hnothing]
      split
      · exact ⟨.answered _, if_pos ⟨rfl, rfl⟩, fun _ h => absurd h hmute⟩
      · exact fun h => absurd h hmute

/-- Where the session is with its requests: none is under way, or the last one is, and what has
been posted for it comes after the answers to the others. -/
inductive Turn (env : Env) (s : SessionId) (C : Conc) (heads : List UBJ.Object) : Prop
  | idle (none_running : ∀ i t head, C.thread i = some t → t.event ≠ .request s head)
      (h : Replies env heads (responses (C.server.sessions s).outbox))
  | serving {i : Nat} {head : UBJ.Object} {rest : Prog Bool} {m : Answering}
      {earlier : List UBJ.Object} {rs : List Response}
      (thread : C.thread i = some ⟨.request s head, rest⟩)
      (alone : ∀ j t, C.thread j = some t → t.event.owner = some s → j = i)
      (heads_eq : heads = earlier ++ [head]) (h : Replies env earlier rs)
      (posted : responses (C.server.sessions s).outbox = rs ++ m.posted)
      (ids : ∀ r ∈ m.posted, r.requestId = (head.get "requestId").toInt)
      (ended : m = .ended → C.server.terminated = true) (replying : Replying env s head rest m)

namespace Turn

variable {env : Env} {s : SessionId} {C : Conc} {heads : List UBJ.Object}

theorem init : Turn env s {} [] :=
  .idle (fun i t head ht => by simp [Conc.thread] at ht) .nil

/-- A handler keeps its place when another begins. -/
theorem thread_begun {i : Nat} {t : Thread} {x : Option Thread} (h : C.thread i = some t) :
    (C.threads ++ [x]).getD i none = some t := by
  rw [Conc.getD_concat, if_neg (Nat.ne_of_lt (Conc.lt_of_thread h))]
  exact h

/-- A handler begins. -/
theorem begin {e : Event} (hlive : C.server.terminated = false) (hfree : C.Free e)
    (h : Turn env s C heads) :
    Turn env s { C with
      server := e.note C.server
      threads := C.threads ++ [some { event := e, rest := e.program env C.server }] }
      (heads ++ e.asks s) := by
  have hnote := responses_note (s := s) e C.server
  -- the session is not under way if its own handler begins
  have hown : e.owner = some s → ∀ i t, C.thread i = some t → t.event.owner ≠ some s := by
    intro howner i t ht
    rw [← howner]
    exact hfree t (Conc.mem_running.mpr ⟨i, ht⟩) (by simp [howner])
  cases h with
  | idle hnone hreplies =>
    by_cases he : ∃ head, e = .request s head
    · obtain ⟨head, rfl⟩ := he
      refine .serving (i := C.threads.length) (m := .waiting) ?_ ?_ (by simp [Event.asks])
        hreplies (by simpa [Answering.posted] using hnote) (fun _ hr => absurd hr List.not_mem_nil)
        (fun h => by cases h) (replying_processIncomingRequest env s head)
      · simp [Conc.thread, Event.program]
      · intro j t ht howner
        rcases Conc.getD_concat_cases ht with ⟨hj, -⟩ | ⟨-, hold⟩
        · exact hj
        · exact absurd howner (hown rfl j t hold)
    · have hasks : e.asks s = [] := by
        cases e with
        | request t head =>
          refine if_neg ?_
          rintro rfl
          exact he ⟨head, rfl⟩
        | _ => rfl
      rw [hasks, List.append_nil]
      refine .idle (fun i t head ht => ?_) (by rw [hnote]; exact hreplies)
      rcases Conc.getD_concat_cases ht with ⟨-, hnew⟩ | ⟨-, hold⟩
      · obtain rfl := Option.some.inj hnew
        exact fun h => he ⟨head, h⟩
      · exact hnone i t head hold
  | serving hthread halone hheads hreplies hposted hids hended hreplying =>
    have hother : e.owner ≠ some s := fun howner => hown howner _ _ hthread rfl
    have hasks : e.asks s = [] := by
      cases e with
      | request t head =>
        refine if_neg ?_
        rintro rfl
        exact hother rfl
      | _ => rfl
    rw [hasks, List.append_nil]
    refine .serving (thread_begun hthread) ?_ hheads hreplies (hnote.trans hposted) hids
      (fun h => absurd (hlive.symm.trans (hended h)) Bool.false_ne_true) hreplying
    intro j t ht howner
    rcases Conc.getD_concat_cases ht with ⟨-, hnew⟩ | ⟨-, hold⟩
    · obtain rfl := Option.some.inj hnew
      exact absurd howner hother
    · exact halone j t hold howner

theorem thread_performed {i : Nat} {c : Choice} {e : Event} {o : Op} {k : o.Res → Prog Bool}
    (hthread : C.thread i = some ⟨e, .op o k⟩) :
    (C.performed env i c e o k).thread i = some ⟨e, k (exec env o c C.server).1⟩ := by
  rw [Conc.thread, Conc.getD_set (Conc.lt_of_thread hthread), if_pos rfl]

/-- No handler of the session comes to be under way when a handler goes on. -/
theorem alone_performed {i j : Nat} {c : Choice} {e : Event} {o : Op} {k : o.Res → Prog Bool}
    (hthread : C.thread i = some ⟨e, .op o k⟩)
    (halone : ∀ j' t, C.thread j' = some t → t.event.owner = some s → j' = j) :
    ∀ j' t, (C.performed env i c e o k).thread j' = some t → t.event.owner = some s → j' = j :=
  fun _ _ ht => Conc.forall_performed (P := fun j' t => t.event.owner = some s → j' = j)
    (Q := fun j' t => t.event.owner = some s → j' = j) hthread halone (fun h => h)
    (fun _ _ _ _ h => h) ht

/-- The handler of the session itself goes on: what it posts is what its mode says. -/
theorem answered_exec {o : Op} (c : Choice) {σ : ServerState} {id : UInt32} {m m' : Answering}
    {rs : List Response} (hm : answering s id o m = some m') (hrunning : m ≠ .ended)
    (hposted : responses (σ.sessions s).outbox = rs ++ m.posted)
    (hids : ∀ r ∈ m.posted, r.requestId = id) :
    responses ((exec env o c σ).2.sessions s).outbox = rs ++ m'.posted ∧
      (∀ r ∈ m'.posted, r.requestId = id) ∧
      (m' = .ended → (exec env o c σ).2.terminated = true) := by
  by_cases ho : o.Silent
  · rw [answering_silent ho] at hm
    obtain rfl := Option.some.inj hm
    have hquiet : ∀ r, o ≠ .respond s r := by
      rintro r rfl
      exact ho
    exact ⟨(responses_exec hquiet c σ).trans hposted, hids, fun h => absurd h hrunning⟩
  · cases o with
    | respond t r =>
      cases m with
      | waiting =>
        rw [answering] at hm
        split at hm
        · next hr =>
          obtain ⟨rfl, hid⟩ := hr
          obtain rfl := Option.some.inj hm
          refine ⟨?_, fun r' hr' => ?_, fun h => by cases h⟩
          · simp only [exec, ServerState.send, ServerState.sessions_modify, if_pos,
              responses_append, hposted, Answering.posted, List.append_nil]
            rfl
          · rw [List.mem_singleton.mp hr']
            exact hid
        · cases hm
      | answered | ended => cases hm
    | terminate =>
      cases m with
      | waiting =>
        obtain rfl := Option.some.inj hm
        exact ⟨hposted, hids, fun _ => rfl⟩
      | answered | ended => cases hm
    | _ => exact absurd trivial ho

/-- A handler goes on. -/
theorem perform {i : Nat} {c : Choice} {e : Event} {o : Op} {k : o.Res → Prog Bool}
    (hlive : C.server.terminated = false) (hthread : C.thread i = some ⟨e, .op o k⟩)
    (hfootprint : e.Footprint env o) (h : Turn env s C heads) :
    Turn env s (C.performed env i c e o k) heads := by
  cases h with
  | idle hnone hreplies =>
    have hquiet : ∀ r, o ≠ .respond s r := by
      rintro r rfl
      obtain ⟨head, he⟩ := request_of_respond hfootprint
      exact hnone i _ head hthread he
    refine .idle (fun j t head ht => ?_) (by rw [responses_exec hquiet]; exact hreplies)
    exact Conc.forall_performed (P := fun _ t => t.event ≠ .request s head)
      (Q := fun _ t => t.event ≠ .request s head) hthread (fun j t ht => hnone j t head ht)
      (fun h => h) (fun _ _ _ _ h => h) ht
  | @serving j head rest m earlier rs hown halone hheads hreplies hposted hids hended hreplying =>
    have hrunning : m ≠ .ended := fun h => Bool.false_ne_true (hlive.symm.trans (hended h))
    by_cases hij : i = j
    · subst hij
      obtain ⟨rfl, rfl⟩ := Thread.mk.inj (Option.some.inj (hthread.symm.trans hown))
      obtain ⟨m', hm', hrest⟩ := hreplying
      obtain ⟨hposted', hids', hended'⟩ :=
        @answered_exec env s _ c _ _ _ _ _ hm' hrunning hposted hids
      exact .serving (thread_performed hthread) (alone_performed hthread halone) hheads hreplies
        hposted' hids' hended' (hrest _)
    · have hother : e.owner ≠ some s := fun howner => hij (halone i _ hthread howner)
      have hquiet : ∀ r, o ≠ .respond s r := by
        rintro r rfl
        obtain ⟨head, rfl⟩ := request_of_respond hfootprint
        exact hother rfl
      refine .serving (i := j) ?_ ?_ hheads hreplies ((responses_exec hquiet c _).trans hposted)
        hids (fun h => absurd h hrunning) hreplying
      · rw [Conc.thread, Conc.getD_set (Conc.lt_of_thread hthread), if_neg (Ne.symm hij)]
        exact hown
      · exact alone_performed hthread halone

/-- A handler ends: if it is that of the session, its request has been answered. -/
theorem finish {i : Nat} {e : Event} {b : Bool} {log : List Entry}
    (hlive : C.server.terminated = false) (hthread : C.thread i = some ⟨e, .ret b⟩)
    (h : Turn env s C heads) :
    Turn env s { C with threads := C.threads.set i none, log := log } heads := by
  have hleft : ∀ j t, (C.threads.set i none).getD j none = some t →
      j ≠ i ∧ C.thread j = some t := by
    intro j t ht
    rcases Conc.getD_set_cases (Conc.lt_of_thread hthread) ht with ⟨-, hnone⟩ | ⟨hne, hold⟩
    · cases hnone
    · exact ⟨hne, hold⟩
  cases h with
  | idle hnone hreplies =>
    exact .idle (fun j t head ht => hnone j t head (hleft j t ht).2) hreplies
  | @serving j head rest m earlier rs hown halone hheads hreplies hposted hids hended hreplying =>
    by_cases hij : i = j
    · subst hij
      obtain ⟨rfl, rfl⟩ := Thread.mk.inj (Option.some.inj (hthread.symm.trans hown))
      refine .idle (fun j t head ht he => ?_) ?_
      · exact (hleft j t ht).1 (halone j t (hleft j t ht).2 (by rw [he]; rfl))
      · show Replies env heads (responses (C.server.sessions s).outbox)
        rw [hheads, hposted]
        cases m with
        | waiting =>
          rw [Answering.posted, List.append_nil]
          exact .skip hreplies fun hanswerable => hreplying hanswerable rfl
        | answered r => exact .answer hreplies (hids r (List.mem_singleton_self r))
        | ended => exact absurd (hlive.symm.trans (hended rfl)) Bool.false_ne_true
    · refine .serving (i := j) ?_ (fun j' t ht => halone j' t (hleft j' t ht).2) hheads hreplies
        hposted hids hended hreplying
      rw [Conc.thread, Conc.getD_set (Conc.lt_of_thread hthread), if_neg (Ne.symm hij)]
      exact hown

/-- What clients see. -/
theorem inTurn (h : Turn env s C heads) : InTurn env s C heads := by
  cases h with
  | idle hnone hreplies => exact .all hreplies
  | @serving j head rest m earlier rs hown halone hheads hreplies hposted hids hended hreplying =>
    cases m with
    | answered r =>
      refine .all ?_
      rw [hheads, hposted]
      exact .answer hreplies (hids r (List.mem_singleton_self r))
    | waiting | ended =>
      refine .butLast hheads ?_ ⟨_, Conc.mem_running.mpr ⟨j, hown⟩, rfl⟩
      rw [hposted, Answering.posted, List.append_nil]
      exact hreplies

end Turn

theorem turn_afterMoves (env : Env) (s : SessionId) (ms : List Move) :
    Turn env s (afterMoves env ms) (asked env s ms) := by
  induction ms with
  | nil => exact .init
  | cons m ms ih =>
    cases m with
    | begin e =>
      rw [afterMoves, asked, Conc.next]
      by_cases hbegins : (afterMoves env ms).Begins e
      · rw [if_pos hbegins]
        unfold Conc.Begins at hbegins
        rw [if_pos hbegins]
        exact ih.begin hbegins.1 hbegins.2.2
      · rw [if_neg hbegins]
        unfold Conc.Begins at hbegins
        rw [if_neg hbegins]
        exact ih
    | proceed i c =>
      simp only [afterMoves, asked, Conc.next]
      split
      · exact ih
      · next hlive =>
        have hlive : (afterMoves env ms).server.terminated = false := by simpa using hlive
        split
        · next e o k hthread =>
          exact ih.perform hlive hthread (footprint_afterMoves env ms hthread).1
        · next e b hthread => exact ih.finish hlive hthread
        · exact ih

/-- No client is sent two responses to a request, or a response before one to an earlier request. -/
theorem InTurn.sublist {env : Env} {s : SessionId} {C : Conc} {heads : List UBJ.Object}
    (h : InTurn env s C heads) :
    ((responses (C.server.sessions s).outbox).map Response.requestId).Sublist
      (heads.map fun head => (head.get "requestId").toInt) := by
  cases h with
  | all h => exact h.sublist
  | butLast heads_eq h running =>
    rw [heads_eq, List.map_append]
    exact h.sublist.trans (List.sublist_append_left ..)

/-- **Replies in the order of requests.**  After every run of interleaved handlers, the responses
that a session has been sent answer its requests in their order, one each: all of the requests,
or all but the last while its handler is under way. -/
theorem replies_in_order (env : Env) (s : SessionId) (ms : List Move) :
    InTurn env s (afterMoves env ms) (asked env s ms) :=
  (turn_afterMoves env s ms).inTurn

end ZwayServer
