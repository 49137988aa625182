import BlockEmulator.DelimitedStream
import BlockEmulator.Fallible
import BlockEmulator.NodeShutdown
import BlockEmulator.Transaction

/-!
# Messages on a connection (`message.go`, `p2pNetwork.go`, `pbft.go`)

A message is sent as its type, filled up with NULs to a fixed width, and its content; a
newline ends it. The connection loop of a node takes the stream apart at the newlines and
the lines at the width. The newline stays at the end of the content, where JSON takes no
notice of it.

The handlers are not part of the model, but for the stop: the loop returns after it.

* `splitMessage_mergeMessage` — a type and a content are found again.
* `ClientLoop.round_goroutineStep` — a round is made of the steps of the node's goroutine.
* `handleClientRequest_returned` — the loop ends on every stream.
* `handleClientRequest_frames` — **the messages are read as they were written**, up to the
  first one that stops the node, however the stream arrives.
-/

namespace BlockEmulator

open DelimitedStream

/-! ## Messages -/

/-- `prefixMSGtypeLen` -/
def prefixMSGtypeLen : ℕ := 30

/-- `'\n'` -/
def newline : UInt8 := 10

/-- A `MessageType`, which is a string of bytes, with the content of the message. -/
structure WireMessage where
  /-- `msgType` -/
  msgType : Bytes
  /-- `content` -/
  content : Bytes
  deriving DecidableEq

/-- `b[i] = v`; `none` is a panic. -/
def setByte (b : Bytes) (e : UInt8 × ℕ) : Option Bytes :=
  if e.2 < b.length then some (b.set e.2 e.1) else none

/-- `MergeMessage`; `none` is a panic. -/
def mergeMessage (msgType content : Bytes) : Option Bytes :=
  (msgType.zipIdx.foldlM setByte (List.replicate prefixMSGtypeLen 0)).map (· ++ content)

/-- `SplitMessage`; `none` is a panic. -/
def splitMessage (message : Bytes) : Option WireMessage :=
  if message.length < prefixMSGtypeLen then none
  else
    some
      { msgType := (message.take prefixMSGtypeLen).filter (· ≠ 0)
        content := message.drop prefixMSGtypeLen }

/-- What `TcpDial` writes to a connection, for messages one after another. -/
def writeMessages (msgs : List WireMessage) : Option Bytes :=
  (msgs.mapM fun m => (mergeMessage m.msgType m.content).map (· ++ [newline])).map List.flatten

/-- The bytes of a text of ASCII characters. -/
def asciiBytes (text : String) : Bytes := text.toList.map fun c => UInt8.ofNat c.toNat

/-- The switch of `handleMessage`. -/
def nodeMessage (msgType : Bytes) : NodeMessage :=
  if msgType = asciiBytes "preprepare" then .prePrepare
  else if msgType = asciiBytes "prepare" then .prepare
  else if msgType = asciiBytes "commit" then .commit
  else if msgType = asciiBytes "ViewChangePropose" then .viewChangePropose
  else if msgType = asciiBytes "NewChange" then .newChange
  else if msgType = asciiBytes "requestOldrequest" then .requestOldrequest
  else if msgType = asciiBytes "sendOldrequest" then .sendOldrequest
  else if msgType = asciiBytes "stop" then .stop
  else .outside

/-! ## The connection loop -/

/-- The loop of `handleClientRequest`. -/
structure ClientLoop where
  /-- `clientReader` -/
  reader : Reader UInt8
  /-- `stopSignal` -/
  stopSignal : Bool
  /-- what `handleMessage` took apart -/
  handled : List WireMessage
  /-- whether the loop is left -/
  returned : Bool

/-- One round of the loop. Other goroutines may have stopped the node by the first look at
the signal, or by the second one. -/
def ClientLoop.round (stopped : Bool × Bool) (s : ClientLoop) : Option ClientLoop :=
  let (clientRequest, err) := readBytes newline s.reader.buffer s.reader.chunks
  if s.stopSignal || stopped.1 then some { s with stopSignal := true, returned := true }
  else
    match err with
    | none => some { s with returned := true }
    | some reader =>
      if stopped.2 then some { s with reader := reader, stopSignal := true }
      else
        (splitMessage clientRequest).map fun m =>
          { reader := reader
            -- `WaitToStop` sets the signal
            stopSignal := nodeMessage m.msgType = .stop
            handled := s.handled ++ [m]
            returned := false }

/-- A number of rounds, from the `k`-th on. -/
def ClientLoop.rounds (stopped : ℕ → Bool × Bool) : ℕ → ℕ → ClientLoop → Option ClientLoop
  | 0, _, s => some s
  | n + 1, k, s =>
    if s.returned then some s
    else (s.round (stopped k)).bind (ClientLoop.rounds stopped n (k + 1))

/-- `handleClientRequest`, on a stream that arrives in chunks and ends. A round takes one
byte at least, so there are enough of them. -/
def handleClientRequest (stopped : ℕ → Bool × Bool) (chunks : List Bytes) : Option ClientLoop :=
  ClientLoop.rounds stopped (chunks.flatten.length + 1) 0 ⟨⟨[], chunks⟩, false, [], false⟩

/-! ## What is merged is split again -/

namespace WireMessage

/-- The bytes of a message. -/
def bytes (m : WireMessage) : Bytes :=
  m.msgType ++ List.replicate (prefixMSGtypeLen - m.msgType.length) 0 ++ m.content

/-- A message that a frame can hold. -/
structure Framable (m : WireMessage) : Prop where
  /-- the type fits into its field -/
  fits : m.msgType.length ≤ prefixMSGtypeLen
  /-- the type ends where the NULs begin -/
  noNul : 0 ∉ m.msgType
  /-- the frame does not end in the type -/
  noNewline : newline ∉ m.msgType
  /-- nor in the content -/
  oneLine : newline ∉ m.content

instance : DecidablePred Framable := fun m =>
  decidable_of_iff
    (m.msgType.length ≤ prefixMSGtypeLen ∧ 0 ∉ m.msgType ∧ newline ∉ m.msgType ∧
      newline ∉ m.content)
    ⟨fun h => ⟨h.1, h.2.1, h.2.2.1, h.2.2.2⟩, fun h => ⟨h.fits, h.noNul, h.noNewline, h.oneLine⟩⟩

/-- A message as it is received: the newline is still there. -/
def received (m : WireMessage) : WireMessage := { m with content := m.content ++ [newline] }

variable {m : WireMessage}

@[simp] theorem bytes_received : m.received.bytes = m.bytes ++ [newline] :=
  (List.append_assoc ..).symm

/-- The bytes of a message are one line. -/
theorem Framable.newline_notMem_bytes (h : m.Framable) : newline ∉ m.bytes := by
  rw [bytes, List.mem_append, List.mem_append]
  rintro ((htype | hfill) | hcontent)
  · exact h.noNewline htype
  · exact absurd (List.eq_of_mem_replicate hfill) (by decide)
  · exact h.oneLine hcontent

/-- The types of the switch are types that a frame can hold. -/
theorem framable_of_nodeMessage (h : nodeMessage m.msgType ≠ .outside)
    (hcontent : newline ∉ m.content) : m.Framable := by
  refine by_contra fun hnot => h ?_
  have hne {name : Bytes} (hname : name.length ≤ prefixMSGtypeLen ∧ 0 ∉ name ∧ newline ∉ name) :
      m.msgType ≠ name := by
    rintro rfl
    exact hnot ⟨hname.1, hname.2.1, hname.2.2, hcontent⟩
  rw [nodeMessage]
  iterate 8 refine (if_neg (hne (by decide))).trans ?_
  rfl

end WireMessage

variable {m : WireMessage} {msgs : List WireMessage}

theorem setByte_append (written : Bytes) (a b : UInt8) (rest : Bytes) :
    setByte (written ++ b :: rest) (a, written.length) = some (written ++ [a] ++ rest) := by
  rw [setByte, if_pos (by simp), List.set_append_right _ _ le_rfl, Nat.sub_self, List.set_cons_zero,
    List.append_assoc, List.singleton_append]

theorem setByte_eq_none (written : Bytes) (a : UInt8) :
    setByte written (a, written.length) = none :=
  if_neg (lt_irrefl _)

/-- The bytes of a type are set one by one, as long as there is room. -/
theorem foldlM_setByte (written rest msgType : Bytes) :
    (msgType.zipIdx written.length).foldlM setByte (written ++ rest) =
      if msgType.length ≤ rest.length then some (written ++ msgType ++ rest.drop msgType.length)
      else none := by
  induction msgType generalizing written rest with
  | nil => simp
  | cons a msgType ih =>
    rw [List.zipIdx_cons, List.foldlM_cons]
    cases rest with
    | nil =>
      rw [List.append_nil, setByte_eq_none]
      rfl
    | cons b rest =>
      have hset := ih (written ++ [a]) rest
      rw [List.length_append, List.length_singleton] at hset
      rw [setByte_append]
      simpa using hset

/-- `MergeMessage` panics where the type does not fit into its field. -/
theorem mergeMessage_eq (m : WireMessage) :
    mergeMessage m.msgType m.content =
      if m.msgType.length ≤ prefixMSGtypeLen then some m.bytes else none := by
  have hset := foldlM_setByte [] (List.replicate prefixMSGtypeLen 0) m.msgType
  rw [List.length_nil, List.nil_append, List.nil_append, List.length_replicate,
    List.drop_replicate] at hset
  rw [mergeMessage, hset, apply_ite (Option.map _)]
  rfl

theorem splitMessage_bytes (hfits : m.msgType.length ≤ prefixMSGtypeLen) (hnul : 0 ∉ m.msgType) :
    splitMessage m.bytes = some m := by
  have hfill : (m.msgType ++ List.replicate (prefixMSGtypeLen - m.msgType.length) 0).length =
      prefixMSGtypeLen := by
    rw [List.length_append, List.length_replicate, Nat.add_sub_cancel' hfits]
  have hpruned : m.msgType.filter (· ≠ 0) = m.msgType :=
    List.filter_eq_self.mpr fun v hv => decide_eq_true fun h => hnul (h ▸ hv)
  rw [splitMessage, WireMessage.bytes, if_neg (by rw [List.length_append, hfill]; omega),
    List.take_left' hfill, List.drop_left' hfill, List.filter_append, hpruned]
  simp

theorem msgType_of_splitMessage {message : Bytes} (h : splitMessage message = some m) :
    m.msgType = (message.take prefixMSGtypeLen).filter (· ≠ 0) := by
  rw [splitMessage] at h
  split at h
  · cases h
  · obtain rfl := Option.some.inj h
    rfl

/-- **A type and a content are found again**. -/
theorem splitMessage_mergeMessage (hfits : m.msgType.length ≤ prefixMSGtypeLen)
    (hnul : 0 ∉ m.msgType) :
    (mergeMessage m.msgType m.content).bind splitMessage = some m := by
  rw [mergeMessage_eq, if_pos hfits, Option.bind_some, splitMessage_bytes hfits hnul]

/-- What is written: the bytes of each message, and a newline behind them. -/
theorem writeMessages_eq (h : ∀ m ∈ msgs, m.Framable) :
    writeMessages msgs = some (msgs.map fun m => m.bytes ++ [newline]).flatten := by
  have hframe (m) (hm : m ∈ msgs) :
      (mergeMessage m.msgType m.content).map (· ++ [newline]) = some (m.bytes ++ [newline]) := by
    rw [mergeMessage_eq, if_pos (h m hm).fits, Option.map_some]
  rw [writeMessages, Fallible.mapM_some hframe, Option.map_some]

theorem length_le_of_written (msgs : List WireMessage) :
    msgs.length ≤ (msgs.map fun m => m.bytes ++ [newline]).flatten.length := by
  induction msgs with
  | nil => exact le_rfl
  | cons m msgs ih =>
    rw [List.map_cons, List.flatten_cons, List.length_append, List.length_append,
      List.length_singleton, List.length_cons]
    omega

/-! ## The loop reads what was written -/

/-- The messages up to the first one that stops the node, with it. -/
def throughStop : List WireMessage → List WireMessage
  | [] => []
  | m :: msgs => m :: if nodeMessage m.msgType = .stop then [] else throughStop msgs

namespace ClientLoop

variable {stopped : ℕ → Bool × Bool} {n k : ℕ} {s s' : ClientLoop}

theorem rounds_of_returned (h : s.returned = true) : rounds stopped n k s = some s := by
  cases n with
  | zero => rfl
  | succ n => rw [rounds, if_pos h]

/-- Once the node is stopped the loop returns, and nothing more is handled. -/
theorem round_of_stopSignal {stop : Bool × Bool} (h : s.stopSignal = true) :
    s.round stop = some { s with stopSignal := true, returned := true } := by
  rw [round, h]
  rfl

theorem rounds_of_stopSignal (h : s.stopSignal = true) (hret : s.returned = false) :
    rounds stopped (n + 1) k s = some { s with stopSignal := true, returned := true } := by
  rw [rounds, hret, round_of_stopSignal h]
  exact rounds_of_returned rfl

/-- The round that takes a message: it is handled if the node is not stopped by then. -/
theorem round_frame (stop : Bool × Bool) {rest : Bytes} (hm : m.Framable)
    (hsignal : s.stopSignal = false) (hunread : s.reader.unread = m.bytes ++ newline :: rest) :
    ∃ reader, reader.unread = rest ∧
      s.round stop =
        some
          (if stop.1 then { s with stopSignal := true, returned := true }
          else if stop.2 then { s with reader := reader, stopSignal := true }
          else
            { reader := reader
              stopSignal := nodeMessage m.msgType = .stop
              handled := s.handled ++ [m.received]
              returned := false }) := by
  obtain ⟨reader, hread, hrest⟩ := readBytes_frame hm.newline_notMem_bytes hunread
  have hsplit : splitMessage (m.bytes ++ [newline]) = some m.received := by
    rw [← WireMessage.bytes_received]
    exact splitMessage_bytes hm.fits hm.noNul
  refine ⟨reader, hrest, ?_⟩
  obtain ⟨first, second⟩ := stop
  simp only [round, hread, hsignal, hsplit]
  cases first <;> cases second <;> rfl

/-- At the end of the stream the loop returns. -/
theorem round_end (stop : Bool × Bool) (hunread : s.reader.unread = []) :
    ∃ s', s.round stop = some s' ∧ s'.returned = true ∧ s'.handled = s.handled := by
  simp only [round, readBytes_end hunread]
  split
  · exact ⟨_, rfl, rfl, rfl⟩
  · exact ⟨_, rfl, rfl, rfl⟩

/-- The loop is left, and has handled the messages up to the first one that stops the node, or
fewer of them if another goroutine stops it. -/
def LeftAfter (stopped : ℕ → Bool × Bool) (handled msgs : List WireMessage)
    (result : Option ClientLoop) : Prop :=
  ∃ s got, result = some s ∧ s.returned = true ∧
    s.handled = handled ++ got.map WireMessage.received ∧ got <+: throughStop msgs ∧
    ((∀ k, stopped k = (false, false)) → got = throughStop msgs)

section

variable {handled : List WireMessage} {result : Option ClientLoop}

theorem LeftAfter.nil (hret : s.returned = true) (hhandled : s.handled = handled) :
    LeftAfter stopped handled [] (some s) :=
  ⟨s, [], rfl, hret, hhandled.trans (List.append_nil _).symm, List.nil_prefix, fun _ => rfl⟩

/-- Where another goroutine stops the node, nothing more need be handled. -/
theorem LeftAfter.of_stopped (hstopped : stopped k ≠ (false, false)) (hret : s.returned = true)
    (hhandled : s.handled = handled) : LeftAfter stopped handled msgs (some s) :=
  ⟨s, [], rfl, hret, hhandled.trans (List.append_nil _).symm, List.nil_prefix,
    fun h => absurd (h k) hstopped⟩

theorem LeftAfter.stop (hstop : nodeMessage m.msgType = .stop) (hret : s.returned = true)
    (hhandled : s.handled = handled ++ [m.received]) :
    LeftAfter stopped handled (m :: msgs) (some s) := by
  have hthrough : throughStop (m :: msgs) = [m] := by rw [throughStop, if_pos hstop]
  refine ⟨s, [m], rfl, hret, hhandled, ?_, fun _ => hthrough.symm⟩
  rw [hthrough]

theorem LeftAfter.cons (hstop : nodeMessage m.msgType ≠ .stop)
    (h : LeftAfter stopped (handled ++ [m.received]) msgs result) :
    LeftAfter stopped handled (m :: msgs) result := by
  obtain ⟨s, got, hresult, hret, hhandled, hprefix, hquiet⟩ := h
  have hthrough : throughStop (m :: msgs) = m :: throughStop msgs := by
    rw [throughStop, if_neg hstop]
  refine ⟨s, m :: got, hresult, hret, ?_, ?_, fun h => ?_⟩
  · rw [hhandled, List.map_cons, List.append_assoc, List.singleton_append]
  · rw [hthrough]
    exact List.cons_prefix_cons.mpr ⟨rfl, hprefix⟩
  · rw [hthrough, hquiet h]

end

/-- A number of rounds reads the messages that are left. -/
theorem rounds_frames (hall : ∀ m ∈ msgs, m.Framable) (hsignal : s.stopSignal = false)
    (hret : s.returned = false)
    (hunread : s.reader.unread = (msgs.map fun m => m.bytes ++ [newline]).flatten)
    (hn : msgs.length < n) : LeftAfter stopped s.handled msgs (rounds stopped n k s) := by
  induction msgs generalizing n k s with
  | nil =>
    obtain ⟨n, rfl⟩ := Nat.exists_eq_succ_of_ne_zero (Nat.ne_of_gt hn)
    obtain ⟨s', hround, hret', hhandled⟩ := round_end (stopped k) hunread
    rw [rounds, hret, if_neg Bool.false_ne_true, hround, Option.bind_some,
      rounds_of_returned hret']
    exact .nil hret' hhandled
  | cons m msgs ih =>
    -- a round for the message, and one more to leave
    rw [List.length_cons] at hn
    obtain ⟨n, rfl⟩ : ∃ n', n = n' + 2 := Nat.exists_eq_add_of_le' (by omega)
    obtain ⟨hm, hmsgs⟩ := List.forall_mem_cons.mp hall
    rw [List.map_cons, List.flatten_cons, List.append_assoc, List.singleton_append] at hunread
    obtain ⟨reader, hrest, hround⟩ := round_frame (stopped k) hm hsignal hunread
    rw [rounds, hret, if_neg Bool.false_ne_true, hround, Option.bind_some]
    split
    next hfirst =>
      rw [rounds_of_returned rfl]
      exact .of_stopped (k := k) (fun h => by simp [h] at hfirst) rfl rfl
    next =>
    split
    next hsecond =>
      rw [rounds_of_stopSignal (s := { s with reader := reader, stopSignal := true }) rfl hret]
      exact .of_stopped (k := k) (fun h => by simp [h] at hsecond) rfl rfl
    next =>
    by_cases hstop : nodeMessage m.msgType = .stop
    · rw [rounds_of_stopSignal (decide_eq_true hstop) rfl]
      exact .stop hstop rfl rfl
    · exact .cons hstop (ih hmsgs (decide_eq_false hstop) rfl hrest (Nat.lt_of_succ_lt_succ hn))

/-- What a round does: it leaves the loop, it drops a line, or it handles one. -/
theorem round_cases {stop : Bool × Bool} (h : s.round stop = some s') :
    (s.stopSignal || stop.1) = true ∧ s' = { s with stopSignal := true, returned := true } ∨
      (s.stopSignal || stop.1) = false ∧ ∃ clientRequest err,
        readBytes newline s.reader.buffer s.reader.chunks = (clientRequest, err) ∧
          (err = none ∧ s' = { s with returned := true } ∨
            ∃ reader, err = some reader ∧
              (stop.2 = true ∧ s' = { s with reader := reader, stopSignal := true } ∨
                stop.2 = false ∧ ∃ m, splitMessage clientRequest = some m ∧
                  s' =
                    { reader := reader
                      stopSignal := nodeMessage m.msgType = .stop
                      handled := s.handled ++ [m]
                      returned := false })) := by
  rw [round] at h
  split at h
  next clientRequest err hread =>
    split at h
    next hfirst => exact .inl ⟨hfirst, (Option.some.inj h).symm⟩
    next hfirst =>
      refine .inr ⟨Bool.eq_false_of_not_eq_true hfirst, clientRequest, err, hread, ?_⟩
      cases err with
      | none => exact .inl ⟨rfl, (Option.some.inj h).symm⟩
      | some reader =>
        dsimp only at h
        refine .inr ⟨reader, rfl, ?_⟩
        split at h
        next hsecond => exact .inl ⟨hsecond, (Option.some.inj h).symm⟩
        next hsecond =>
          obtain ⟨m, hsplit, hs'⟩ := Option.map_eq_some_iff.mp h
          exact .inr ⟨Bool.eq_false_of_not_eq_true hsecond, m, hsplit, hs'.symm⟩

/-- What `ReadBytes` returns to a goroutine that reads. -/
def readResult (r : Reader UInt8) : ReadResult :=
  match readBytes newline r.buffer r.chunks with
  | (_, none) => .eof
  | (clientRequest, some _) =>
    .line (nodeMessage ((clientRequest.take prefixMSGtypeLen).filter (· ≠ 0)))

/-- A round is made of the steps of a connection loop of the node, from what it read: with the
signal as it is at the first look, and at the second one. -/
theorem round_goroutineStep {stop : Bool × Bool} {p q : NodeLifecycle}
    (h : s.round stop = some s') (hret : s.returned = false)
    (hp : p.stopSignal = (s.stopSignal || stop.1)) (hq : q.stopSignal = stop.2) :
    goroutineStep p (.received (readResult s.reader)) .next = some (p, .ended, []) ∧
        s'.returned = true ∧ s'.handled = s.handled ∨
      ∃ msg, goroutineStep p (.received (readResult s.reader)) .next =
          some (p, .lockPool msg, []) ∧ s'.returned = false ∧
        (goroutineStep q (.recheck msg) .next = some (q, .unlockPool, []) ∧
            s'.handled = s.handled ∨
          ∃ m, nodeMessage m.msgType = msg ∧
            goroutineStep q (.recheck msg) .next = some (q, .handleMessage msg, []) ∧
            s'.handled = s.handled ++ [m]) := by
  obtain ⟨hfirst, rfl⟩ | ⟨hfirst, clientRequest, err, hread, hline⟩ := round_cases h
  · exact .inl ⟨if_pos (hp.trans hfirst), rfl, rfl⟩
  · have hgo : ¬ p.stopSignal = true := by simp [hp, hfirst]
    rw [readResult, hread]
    obtain ⟨rfl, rfl⟩ | ⟨reader, rfl, hhandle⟩ := hline
    · exact .inl ⟨if_neg hgo, rfl, rfl⟩
    · refine .inr ⟨_, if_neg hgo, ?_⟩
      obtain ⟨hsecond, rfl⟩ | ⟨hsecond, m, hsplit, rfl⟩ := hhandle
      · refine ⟨hret, .inl ⟨?_, rfl⟩⟩
        rw [goroutineStep, hq, if_pos hsecond]
      · refine ⟨rfl, .inr ⟨m, congrArg nodeMessage (msgType_of_splitMessage hsplit), ?_, rfl⟩⟩
        rw [goroutineStep, hq, hsecond, if_neg Bool.false_ne_true]

/-- A round leaves the loop, or takes something from the stream. -/
theorem round_takes {stop : Bool × Bool} (h : s.round stop = some s') :
    s'.returned = true ∨ s'.reader.unread.length < s.reader.unread.length := by
  obtain ⟨-, rfl⟩ | ⟨-, clientRequest, err, hread, hline⟩ := round_cases h
  · exact .inl rfl
  · obtain ⟨-, rfl⟩ | ⟨reader, rfl, hhandle⟩ := hline
    · exact .inl rfl
    · have htaken := unread_length_lt (congrArg Prod.snd hread)
      obtain ⟨-, rfl⟩ | ⟨-, m, -, rfl⟩ := hhandle
      · exact .inr htaken
      · exact .inr htaken

/-- With more rounds than bytes that are left the loop is left. -/
theorem rounds_returned (hn : s.reader.unread.length < n) (h : rounds stopped n k s = some s') :
    s'.returned = true := by
  induction n generalizing k s with
  | zero => exact absurd hn (Nat.not_lt_zero _)
  | succ n ih =>
    rw [rounds] at h
    split at h
    next hret =>
      obtain rfl := Option.some.inj h
      exact hret
    next =>
      obtain ⟨mid, hround, hrest⟩ := Option.bind_eq_some_iff.mp h
      obtain hret | htaken := round_takes hround
      · rw [rounds_of_returned hret] at hrest
        obtain rfl := Option.some.inj hrest
        exact hret
      · exact ih (Nat.lt_of_lt_of_le htaken (Nat.le_of_lt_succ hn)) hrest

end ClientLoop

/-- **The loop ends on every stream**, if no line of it is too short for a message. -/
theorem handleClientRequest_returned {stopped : ℕ → Bool × Bool} {chunks : List Bytes}
    {s : ClientLoop} (h : handleClientRequest stopped chunks = some s) : s.returned = true :=
  ClientLoop.rounds_returned (Nat.lt_succ_self _) h

/-- **Messages are read as they were written**, each with the newline behind it, up to the first
one that stops the node; fewer of them if another goroutine stops it. -/
theorem handleClientRequest_frames (h : ∀ m ∈ msgs, m.Framable) :
    ∃ written, writeMessages msgs = some written ∧
      ∀ chunks : List Bytes, chunks.flatten = written → ∀ stopped, ∃ s got,
        handleClientRequest stopped chunks = some s ∧ s.returned = true ∧
        s.handled = got.map WireMessage.received ∧ got <+: throughStop msgs ∧
        ((∀ k, stopped k = (false, false)) → got = throughStop msgs) := by
  refine ⟨_, writeMessages_eq h, fun chunks hchunks stopped => ?_⟩
  have hn : msgs.length < chunks.flatten.length + 1 := by
    rw [hchunks]
    exact Nat.lt_succ_of_le (length_le_of_written msgs)
  exact ClientLoop.rounds_frames (s := ⟨⟨[], chunks⟩, false, [], false⟩) h rfl rfl hchunks hn

/-- Two messages in two chunks, the second of which stops the node. -/
theorem handleClientRequest_frames_inject_stop :
    ∃ written,
      writeMessages [⟨asciiBytes "inject", asciiBytes "1"⟩, ⟨asciiBytes "stop", []⟩] =
        some written ∧
      ∃ s, handleClientRequest (fun _ => (false, false)) [written.take 20, written.drop 20] =
          some s ∧
        s.handled = [⟨asciiBytes "inject", asciiBytes "1" ++ [newline]⟩,
          ⟨asciiBytes "stop", [newline]⟩] := by
  have hframable : ∀ m ∈ ([⟨asciiBytes "inject", asciiBytes "1"⟩, ⟨asciiBytes "stop", []⟩] :
      List WireMessage), m.Framable := by
    decide
  obtain ⟨written, hwritten, hread⟩ := handleClientRequest_frames hframable
  obtain ⟨s, got, hs, -, hhandled, -, hgot⟩ :=
    hread [written.take 20, written.drop 20] (by simp) fun _ => (false, false)
  refine ⟨written, hwritten, s, hs, ?_⟩
  rw [hhandled, hgot fun _ => rfl]
  decide

/-- What is read is not quite what was written: a content has got a newline, and behind a `stop`
nothing is read. -/
theorem handleClientRequest_not_roundTrip :
    (¬ ∀ msgs : List WireMessage, (∀ m ∈ msgs, m.Framable) → ∀ chunks : List Bytes,
      some chunks.flatten = writeMessages msgs →
        (handleClientRequest (fun _ => (false, false)) chunks).map ClientLoop.handled =
          some msgs) ∧
    ¬ ∀ msgs : List WireMessage, (∀ m ∈ msgs, m.Framable) → ∀ chunks : List Bytes,
      some chunks.flatten = writeMessages msgs →
        (handleClientRequest (fun _ => (false, false)) chunks).map ClientLoop.handled =
          some (msgs.map WireMessage.received) := by
  constructor
  · intro h
    have hinject := h [⟨asciiBytes "inject", asciiBytes "1"⟩] (by decide)
      [asciiBytes "inject" ++ List.replicate 24 0 ++ asciiBytes "1\n"] (by decide)
    revert hinject
    decide
  · intro h
    have hstop := h [⟨asciiBytes "stop", []⟩, ⟨asciiBytes "inject", asciiBytes "1"⟩]
      (by decide)
      [asciiBytes "stop" ++ List.replicate 26 0 ++ [newline] ++
        (asciiBytes "inject" ++ List.replicate 24 0 ++ asciiBytes "1\n")] (by decide)
    revert hstop
    decide

end BlockEmulator
