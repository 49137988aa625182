import BlockEmulator.StepSystem

/-!
# A server behind two pipes

A caller has one process answer its requests: it writes the request into one pipe and reads
the reply from another, one call at a time, and starts the process where there is none. The
process keeps something in memory from one request to the next, and may die at any time; a
call finds out by a write or a read that fails. Nobody checks which request a reply is for.
The replies depend on a world that moves on its own as well.

* `Paired.step` — at most one message is on its way, and it is that of the open call.
* `replies_answer` — **a reply that is taken is one to the request of its call**, in the world
  as it was at some time of the call, whatever the process has kept in memory.
* `Paired.call_moves` — a call is never stuck.
-/

namespace PipedServer

open StepSystem

variable {World Mem Req Rep Draw Move : Type*}

/-- A process that was started. -/
structure Process (Mem Req Rep : Type*) where
  /-- whether it still runs -/
  alive : Bool
  /-- what it keeps in memory -/
  mem : Mem
  /-- the pipe of requests -/
  inbox : List Req
  /-- the pipe of replies, which can be read when it has died -/
  outbox : List Rep

/-- A call that has ended. -/
structure Call (World Req Rep : Type*) where
  /-- the request -/
  request : Req
  /-- the reply; `none` is an error -/
  reply : Option Rep
  /-- the worlds during the call, the latest first -/
  seen : List World

/-- The caller, the process, and the world. -/
structure State (World Mem Req Rep : Type*) where
  /-- what the replies depend on -/
  world : World
  /-- the process that was started last, unless the caller has given it up -/
  process : Option (Process Mem Req Rep)
  /-- the request of the open call, and the worlds since -/
  call : Option (Req × List World)
  /-- the calls that have ended, the latest first -/
  log : List (Call World Req Rep)

/-- What happens. -/
inductive Action (Req Draw Move : Type*) where
  /-- a call is opened: the request is written -/
  | call (r : Req)
  /-- a call fails, since no process can be started -/
  | refuse (r : Req)
  /-- the process handles a request, with some random numbers -/
  | serve (ω : Draw)
  /-- the process dies -/
  | die
  /-- the caller reads -/
  | take
  /-- the world moves -/
  | move (o : Move)

/-- Nothing has happened. -/
def State.start (w : World) : State World Mem Req Rep := ⟨w, none, none, []⟩

section

variable (handle : World → Mem → Draw → Req → Rep × Mem × World) (fresh : Mem)
  (move : Move → World → Option World)

/-- One step. -/
def step (s : State World Mem Req Rep) :
    Action Req Draw Move → Option (State World Mem Req Rep)
  | .call r =>
    -- one call at a time
    if s.call.isSome then none
    else
      match s.process with
      | none => some { s with process := some ⟨true, fresh, [r], []⟩, call := some (r, [s.world]) }
      | some p =>
        if p.alive then
          some { s with
            process := some { p with inbox := p.inbox ++ [r] }
            call := some (r, [s.world]) }
        else some { s with process := none, log := ⟨r, none, [s.world]⟩ :: s.log }
  | .refuse r =>
    if s.call.isSome ∨ s.process.isSome then none
    else some { s with log := ⟨r, none, [s.world]⟩ :: s.log }
  | .serve ω =>
    match s.process with
    | none => none
    | some p =>
      match p.alive, p.inbox with
      | true, r :: inbox =>
        let (rep, mem, world) := handle s.world p.mem ω r
        some { s with
          world := world
          process := some ⟨true, mem, inbox, p.outbox ++ [rep]⟩
          call := s.call.map fun c => (c.1, world :: c.2) }
      | _, _ => none
  | .die =>
    match s.process with
    | none => none
    | some p =>
      if p.alive then some { s with process := some { p with alive := false, inbox := [] } }
      else none
  | .take =>
    match s.call, s.process with
    | some (r, seen), some p =>
      match p.outbox with
      | rep :: outbox =>
        some { s with
          process := some { p with outbox := outbox }
          call := none
          log := ⟨r, some rep, seen⟩ :: s.log }
      | [] =>
        -- the caller waits for a process that runs
        if p.alive then none
        else some { s with process := none, call := none, log := ⟨r, none, seen⟩ :: s.log }
    | _, _ => none
  | .move o =>
    (move o s.world).map fun w =>
      { s with world := w, call := s.call.map fun c => (c.1, w :: c.2) }

/-- Requests and random numbers that may occur. -/
def Action.Ok (okReq : Req → Prop) (okDraw : Draw → Prop) : Action Req Draw Move → Prop
  | .call r => okReq r
  | .serve ω => okDraw ω
  | _ => True

/-- **What the process keeps makes no difference.** The world satisfies an invariant, what is
kept is coherent with the world, and then a reply is one of those that it should be. -/
structure Transparent (okReq : Req → Prop) (okDraw : Draw → Prop) (inv : World → Prop)
    (Coherent : World → Mem → Prop) (Answers : World → Req → Rep → Prop) : Prop where
  /-- a process that was just started keeps nothing -/
  fresh : ∀ w, inv w → Coherent w fresh
  /-- a request is handled -/
  serve : ∀ {w m ω r}, inv w → Coherent w m → okReq r → okDraw ω →
    inv (handle w m ω r).2.2 ∧ Coherent (handle w m ω r).2.2 (handle w m ω r).2.1 ∧
      Answers (handle w m ω r).2.2 r (handle w m ω r).1
  /-- the world moves -/
  move : ∀ {o w w'}, inv w → move o w = some w' →
    inv w' ∧ ∀ m, Coherent w m → Coherent w' m

end

variable (okReq : Req → Prop) (inv : World → Prop) (Coherent : World → Mem → Prop)
  (Answers : World → Req → Rep → Prop)

/-- What is on its way in an open call. -/
inductive OnItsWay (r : Req) (seen : List World) (p : Process Mem Req Rep) : Prop
  /-- the request -/
  | request (h : p.alive = true ∧ p.inbox = [r] ∧ p.outbox = [])
  /-- the reply -/
  | reply (rep : Rep) (h : p.inbox = [] ∧ p.outbox = [rep] ∧ ∃ w ∈ seen, Answers w r rep)
  /-- the process has died before -/
  | lost (h : p.alive = false ∧ p.inbox = [] ∧ p.outbox = [])

/-- At most one message is on its way, that of the open call, and all replies that were taken
are as they should be. -/
structure Paired (s : State World Mem Req Rep) : Prop where
  /-- the world -/
  world : inv s.world
  /-- what a process keeps -/
  coherent : ∀ p, s.process = some p → p.alive = true → Coherent s.world p.mem
  /-- between calls the pipes are empty -/
  idle : s.call = none → ∀ p, s.process = some p → p.inbox = [] ∧ p.outbox = []
  /-- in a call -/
  busy : ∀ r seen, s.call = some (r, seen) →
    okReq r ∧ ∃ p, s.process = some p ∧ OnItsWay Answers r seen p
  /-- the replies -/
  log : ∀ c ∈ s.log, ∀ rep, c.reply = some rep →
    okReq c.request ∧ ∃ w ∈ c.seen, Answers w c.request rep

variable {okReq inv Coherent Answers} {okDraw : Draw → Prop}
  {handle : World → Mem → Draw → Req → Rep × Mem × World} {fresh : Mem}
  {move : Move → World → Option World} {s t : State World Mem Req Rep} {a : Action Req Draw Move}

theorem Paired.start {w : World} (hw : inv w) :
    Paired okReq inv Coherent Answers (State.start w : State World Mem Req Rep) where
  world := hw
  coherent _ h := nomatch h
  idle _ _ h := nomatch h
  busy _ _ h := nomatch h
  log _ h := nomatch h

/-- A call that fails leaves no trace but an entry without a reply. -/
theorem Paired.fail (h : Paired okReq inv Coherent Answers s) (r : Req) (seen : List World) :
    Paired okReq inv Coherent Answers
      { s with process := none, call := none, log := ⟨r, none, seen⟩ :: s.log } where
  world := h.world
  coherent _ hp := nomatch hp
  idle _ _ hp := nomatch hp
  busy _ _ hc := nomatch hc
  log c hc rep hrep := by
    rcases List.mem_cons.mp hc with rfl | hc
    · cases hrep
    · exact h.log c hc rep hrep

/-! ## The invariant -/

section

variable (ht : Transparent handle fresh move okReq okDraw inv Coherent Answers)

include ht in
/-- A call is opened. -/
theorem Paired.call (h : Paired okReq inv Coherent Answers s) {r : Req} (hr : okReq r)
    (hstep : step handle fresh move s (.call r) = some t) :
    Paired okReq inv Coherent Answers t := by
  rw [step] at hstep
  obtain ⟨hidle, hstep⟩ := Option.ite_none_left_eq_some.mp hstep
  have hidle : s.call = none := by simpa using hidle
  have hopen : ∀ p : Process Mem Req Rep, (p.alive = true → Coherent s.world p.mem) →
      OnItsWay Answers r [s.world] p → Paired okReq inv Coherent Answers
        { s with process := some p, call := some (r, [s.world]) } := by
    intro p hp hway
    refine ⟨h.world, fun q hq halive => ?_, nofun, fun r' seen hc => ?_, h.log⟩
    · obtain rfl := Option.some.inj hq
      exact hp halive
    · obtain ⟨rfl, rfl⟩ := Prod.mk.inj (Option.some.inj hc)
      exact ⟨hr, p, rfl, hway⟩
  cases hproc : s.process with
  | none =>
    rw [hproc] at hstep
    obtain rfl := Option.some.inj hstep
    exact hopen _ (fun _ => ht.fresh _ h.world) (.request ⟨rfl, rfl, rfl⟩)
  | some p =>
    rw [hproc] at hstep
    dsimp only at hstep
    obtain ⟨hin, hout⟩ := h.idle hidle p hproc
    split at hstep
    · rename_i halive
      obtain rfl := Option.some.inj hstep
      exact hopen _ (fun _ => h.coherent p hproc halive) (.request ⟨halive, by rw [hin]; rfl, hout⟩)
    · obtain rfl := Option.some.inj hstep
      have hfail := h.fail r [s.world]
      rwa [← hidle] at hfail

include ht in
/-- A request is handled. -/
theorem Paired.serve (h : Paired okReq inv Coherent Answers s) {ω : Draw} (hω : okDraw ω)
    (hstep : step handle fresh move s (.serve ω) = some t) :
    Paired okReq inv Coherent Answers t := by
  rw [step] at hstep
  split at hstep
  · cases hstep
  rename_i p hproc
  split at hstep
  · rename_i r inbox halive hin
    obtain rfl := Option.some.inj hstep
    -- the request is that of the open call
    obtain ⟨seen, hcall⟩ : ∃ seen, s.call = some (r, seen) := by
      cases hc : s.call with
      | none =>
        have hempty := (h.idle hc p hproc).1
        rw [hin] at hempty
        cases hempty
      | some c =>
        obtain ⟨-, q, hq, hway⟩ := h.busy c.1 c.2 hc
        obtain rfl := Option.some.inj (hproc.symm.trans hq)
        cases hway with
        | request hreq =>
          obtain ⟨rfl, -⟩ := List.cons.inj (hin.symm.trans hreq.2.1)
          exact ⟨c.2, rfl⟩
        | reply rep hrep => cases hin.symm.trans hrep.1
        | lost hlost => cases hin.symm.trans hlost.2.1
    obtain ⟨hr, q, hq, hway⟩ := h.busy r seen hcall
    obtain rfl := Option.some.inj (hproc.symm.trans hq)
    obtain ⟨hworld, hcoherent, hanswers⟩ :=
      ht.serve h.world (h.coherent p hproc halive) hr hω
    obtain ⟨rfl, hout⟩ : inbox = [] ∧ p.outbox = [] := by
      cases hway with
      | request hreq => exact ⟨(List.cons.inj (hin.symm.trans hreq.2.1)).2, hreq.2.2⟩
      | reply rep hrep => cases hin.symm.trans hrep.1
      | lost hlost => cases hin.symm.trans hlost.2.1
    refine ⟨hworld, fun q hq _ => ?_, fun hc => ?_, fun r' seen' hc => ?_, h.log⟩
    · obtain rfl := Option.some.inj hq
      exact hcoherent
    · rw [hcall] at hc
      cases hc
    · rw [hcall] at hc
      obtain ⟨rfl, rfl⟩ := Prod.mk.inj (Option.some.inj hc)
      refine ⟨hr, _, rfl, .reply _ ⟨rfl, ?_, _, List.mem_cons_self, hanswers⟩⟩
      rw [hout, List.nil_append]
  · cases hstep

/-- The process dies. -/
theorem Paired.die (h : Paired okReq inv Coherent Answers s)
    (hstep : step handle fresh move s .die = some t) : Paired okReq inv Coherent Answers t := by
  rw [step] at hstep
  split at hstep
  · cases hstep
  rename_i p hproc
  obtain ⟨-, hstep⟩ := Option.ite_none_right_eq_some.mp hstep
  obtain rfl := Option.some.inj hstep
  refine ⟨h.world, fun q hq halive => ?_, fun hc q hq => ?_, fun r seen hc => ?_, h.log⟩
  · obtain rfl := Option.some.inj hq
    cases halive
  · obtain rfl := Option.some.inj hq
    exact ⟨rfl, (h.idle hc p hproc).2⟩
  · obtain ⟨hr, q, hq, hway⟩ := h.busy r seen hc
    obtain rfl := Option.some.inj (hproc.symm.trans hq)
    refine ⟨hr, _, rfl, ?_⟩
    cases hway with
    | request hreq => exact .lost ⟨rfl, rfl, hreq.2.2⟩
    | reply rep hrep => exact .reply rep ⟨rfl, hrep.2⟩
    | lost hlost => exact .lost ⟨rfl, rfl, hlost.2.2⟩

/-- The caller reads. -/
theorem Paired.take (h : Paired okReq inv Coherent Answers s)
    (hstep : step handle fresh move s .take = some t) : Paired okReq inv Coherent Answers t := by
  rw [step] at hstep
  split at hstep
  · rename_i r seen p hcall hproc
    obtain ⟨hr, q, hq, hway⟩ := h.busy r seen hcall
    obtain rfl := Option.some.inj (hproc.symm.trans hq)
    split at hstep
    · rename_i rep outbox hout
      obtain rfl := Option.some.inj hstep
      cases hway with
      | request hreq => cases hout.symm.trans hreq.2.2
      | lost hlost => cases hout.symm.trans hlost.2.2
      | reply rep' hrep =>
        obtain ⟨hin, hout', hanswers⟩ := hrep
        obtain ⟨rfl, rfl⟩ := List.cons.inj (hout.symm.trans hout')
        refine ⟨h.world, fun q hq halive => ?_, fun _ q hq => ?_, nofun,
          fun c hc rep' hrep' => ?_⟩
        · obtain rfl := Option.some.inj hq
          exact h.coherent p hproc halive
        · obtain rfl := Option.some.inj hq
          exact ⟨hin, rfl⟩
        · rcases List.mem_cons.mp hc with rfl | hc
          · obtain rfl := Option.some.inj hrep'
            exact ⟨hr, hanswers⟩
          · exact h.log c hc rep' hrep'
    · obtain ⟨-, hstep⟩ := Option.ite_none_left_eq_some.mp hstep
      obtain rfl := Option.some.inj hstep
      exact h.fail r seen
  · cases hstep

include ht in
/-- The world moves. -/
theorem Paired.moves (h : Paired okReq inv Coherent Answers s) {o : Move}
    (hstep : step handle fresh move s (.move o) = some t) :
    Paired okReq inv Coherent Answers t := by
  obtain ⟨w, hw, rfl⟩ := Option.map_eq_some_iff.mp hstep
  obtain ⟨hinv, hkept⟩ := ht.move h.world hw
  refine ⟨hinv, fun p hp halive => hkept _ (h.coherent p hp halive), fun hc => ?_,
    fun r seen hc => ?_, h.log⟩
  · exact h.idle (Option.map_eq_none_iff.mp hc)
  · obtain ⟨⟨r', seen'⟩, hcall, heq⟩ := Option.map_eq_some_iff.mp hc
    obtain ⟨rfl, rfl⟩ := Prod.mk.inj heq
    obtain ⟨hr, p, hp, hway⟩ := h.busy r' seen' hcall
    refine ⟨hr, p, hp, ?_⟩
    cases hway with
    | request hreq => exact .request hreq
    | reply rep hrep =>
      obtain ⟨hin, hout, w', hw', hanswers⟩ := hrep
      exact .reply rep ⟨hin, hout, w', List.mem_cons_of_mem _ hw', hanswers⟩
    | lost hlost => exact .lost hlost

include ht in
/-- **One step.** -/
theorem Paired.step (h : Paired okReq inv Coherent Answers s) (ha : a.Ok okReq okDraw)
    (hstep : PipedServer.step handle fresh move s a = some t) :
    Paired okReq inv Coherent Answers t := by
  cases a with
  | call r => exact h.call ht ha hstep
  | refuse r =>
    obtain ⟨hnone, hstep⟩ := Option.ite_none_left_eq_some.mp hstep
    obtain ⟨hc, hp⟩ : s.call = none ∧ s.process = none := by simpa [not_or] using hnone
    obtain rfl := Option.some.inj hstep
    have hfail := h.fail r [s.world]
    rwa [← hc, ← hp] at hfail
  | serve ω => exact h.serve ht ha hstep
  | die => exact h.die hstep
  | take => exact h.take hstep
  | move o => exact h.moves ht hstep

include ht in
/-- **A reply that is taken is one to the request of its call**, in a world that was there
during the call. -/
theorem replies_answer {w : World} (hw : inv w)
    (hr : Reaches (PipedServer.step handle fresh move) (fun _ a => a.Ok okReq okDraw)
      (State.start w) s) {c : Call World Req Rep} (hc : c ∈ s.log) {rep : Rep}
    (hrep : c.reply = some rep) :
    okReq c.request ∧ ∃ w ∈ c.seen, Answers w c.request rep :=
  (hr.invariant (Paired okReq inv Coherent Answers) (.start hw)
    fun _ _ _ h ha hstep => h.step ht ha hstep).log c hc rep hrep

/-- **A call is never stuck**: the process handles the request, or the caller can read. -/
theorem Paired.call_moves (h : Paired okReq inv Coherent Answers s) (hcall : s.call.isSome) :
    (∀ ω, ∃ t, PipedServer.step handle fresh move s (.serve ω) = some t) ∨
      ∃ t, PipedServer.step handle fresh move s .take = some t := by
  obtain ⟨⟨r, seen⟩, hc⟩ := Option.isSome_iff_exists.mp hcall
  obtain ⟨-, p, hp, hway⟩ := h.busy r seen hc
  cases hway with
  | request hreq =>
    obtain ⟨halive, hin, -⟩ := hreq
    refine .inl fun ω => ?_
    rw [PipedServer.step, hp]
    dsimp only
    rw [halive, hin]
    exact ⟨_, rfl⟩
  | reply rep hrep =>
    obtain ⟨-, hout, -⟩ := hrep
    refine .inr ?_
    rw [PipedServer.step, hc, hp]
    dsimp only
    rw [hout]
    exact ⟨_, rfl⟩
  | lost hlost =>
    obtain ⟨halive, -, hout⟩ := hlost
    refine .inr ?_
    rw [PipedServer.step, hc, hp]
    dsimp only
    rw [hout, halive]
    exact ⟨_, rfl⟩

end

end PipedServer
