import BlockEmulator.Clpa
import BlockEmulator.BlockVerdict
import BlockEmulator.ConsensusLocks
import Mathlib.Logic.Relation

/-!
# Are old requests decided requests?

A node that is left behind asks its leader for the requests it misses, and installs the
answer. `handleCommit` installs a request over `2f + 1` commit votes for its digest;
`handleSendOldSeq` never looks at the votes, nor at the start it has asked for.

Both modules install one request after the other, up to the first that the chain refuses
(`OldInstall`): blocks, and with CLPA also account transfers.

* `handleSendOldSeq_curChain` — what `handleSendOldSeq` makes of the chain.
* `installsDecided_iff` — **only decided requests are installed** exactly where the message
  starts behind the chain of the node and ends with a decided request, or with an ancestor
  of one; a transfer says nothing about what is below it.
* `installs_undecided` — a node that waits for a decided block installs another one.
-/

namespace BlockEmulator

variable {H : Type}

/-! ## Ancestors -/

/-- A block is the parent of another: the other names its hash. -/
def Block.IsParent (cc : ChainConfig H) (b b' : Block H) : Prop :=
  cc.hash.headerHash b.header = b.hash ∧ b'.header.parentBlockHash = b.hash

/-- A block is an ancestor of another, by parent hashes. -/
def Block.IsAncestor (cc : ChainConfig H) : Block H → Block H → Prop :=
  Relation.TransGen (Block.IsParent cc)

/-! ## One request after the other -/

/-- What a module does with an old request. -/
structure OldInstall (App R H : Type) where
  /-- the chain after the request; `none` is a panic, `some none` a request refused -/
  install : App → R → Option (Option App)
  /-- `CurChain.CurrentBlock` -/
  head : App → Block H
  /-- the block in a block request -/
  block : R → Option (Block H)

namespace OldInstall

variable {App R : Type} (op : OldInstall App R H)

/-- The loop of `HandleforSequentialRequest`. -/
def installLoop : App → List R → Option (Bool × App)
  | app, [] => some (true, app)
  | app, r :: rs => (op.install app r).bind fun res =>
    match res with
    | none => some (false, app)
    | some app' => installLoop app' rs

/-- Whether `HandleforSequentialRequest` goes into its loop. -/
def Complete (som : SendOldMessage R) : Prop :=
  som.seqStartHeight ≤ som.seqEndHeight ∧
    som.oldRequest.length = som.seqEndHeight - som.seqStartHeight + 1

instance (som : SendOldMessage R) : Decidable (Complete som) :=
  inferInstanceAs (Decidable (_ ∧ _))

/-- `HandleforSequentialRequest`. -/
def sequential (app : App) (som : SendOldMessage R) : Option (Bool × App) :=
  if Complete som then op.installLoop app som.oldRequest else some (false, app)

/-- The longest prefix of some requests that a chain accepts, with the chain after each. -/
def accepted : App → List R → List (R × App)
  | _, [] => []
  | app, r :: rs =>
    match op.install app r with
    | some (some app') => (r, app') :: accepted app' rs
    | _ => []

/-- What a node installs of a message. -/
def installed (app : App) (som : SendOldMessage R) : List (R × App) :=
  if Complete som then op.accepted app som.oldRequest else []

/-- The chain that is reached with what was installed. -/
def reached (app : App) (es : List (R × App)) : App := (es.getLast?.map (·.2)).getD app

/-- What holds of a module: a request puts one block over the head, and a block request its
own. -/
structure Lawful (cc : ChainConfig H) : Prop where
  /-- the next number -/
  number : ∀ {app r app'}, op.install app r = some (some app') →
    (op.head app').header.number = (op.head app).header.number + 1
  /-- the new head names the old one -/
  parent : ∀ {app r app'}, op.install app r = some (some app') →
    (op.head app').header.parentBlockHash = (op.head app).hash
  /-- the new head has its hash -/
  hash : ∀ {app r app'}, op.install app r = some (some app') →
    cc.hash.headerHash (op.head app').header = (op.head app').hash
  /-- the block of a request is the new head -/
  block : ∀ {app r app' b}, op.install app r = some (some app') → op.block r = some b →
    op.head app' = b

variable {op} {app app' : App} {rs : List R}

theorem reached_cons (e : R × App) (es : List (R × App)) :
    reached app (e :: es) = reached e.2 es := by
  rw [reached, reached, List.getLast?_cons]
  cases es.getLast? with
  | none => rfl
  | some e' => rfl

theorem accepted_cons {r : R} (h : op.install app r = some (some app')) :
    op.accepted app (r :: rs) = (r, app') :: op.accepted app' rs := by
  rw [accepted, h]

/-- Where a prefix is not empty its first request was accepted. -/
theorem exists_install {r : R} {k : ℕ} {e : R × App}
    (h : (op.accepted app (r :: rs))[k]? = some e) :
    ∃ app₁, op.install app r = some (some app₁) ∧
      ((r, app₁) :: op.accepted app₁ rs)[k]? = some e := by
  rw [accepted] at h
  split at h
  · rename_i app₁ hinst
    exact ⟨app₁, hinst, h⟩
  · simp at h

/-- **The loop** reaches the chain after the accepted prefix, and says whether that is all. -/
theorem installLoop_eq_some {ok : Bool} (h : op.installLoop app rs = some (ok, app')) :
    app' = reached app (op.accepted app rs) ∧
      (ok = true ↔ (op.accepted app rs).map (·.1) = rs) := by
  induction rs generalizing app with
  | nil =>
    cases h
    exact ⟨rfl, iff_of_true rfl rfl⟩
  | cons r rs ih =>
    rw [installLoop] at h
    obtain ⟨res, hres, h⟩ := Option.bind_eq_some_iff.mp h
    cases res with
    | none =>
      cases h
      rw [accepted, hres]
      exact ⟨rfl, iff_of_false Bool.false_ne_true nofun⟩
    | some app₁ =>
      obtain ⟨rfl, hok⟩ := ih h
      rw [accepted_cons hres, reached_cons, List.map_cons, List.cons.injEq]
      exact ⟨rfl, hok.trans ⟨fun heq => ⟨rfl, heq⟩, fun heq => heq.2⟩⟩

theorem sequential_eq_some {som : SendOldMessage R} {ok : Bool}
    (h : op.sequential app som = some (ok, app')) :
    app' = reached app (op.installed app som) ∧
      (ok = true → (op.installed app som).map (·.1) = som.oldRequest) := by
  rw [sequential] at h
  rw [installed]
  split at h
  · rename_i hc
    rw [if_pos hc]
    obtain ⟨happ, hok⟩ := installLoop_eq_some h
    exact ⟨happ, hok.mp⟩
  · rename_i hc
    cases h
    rw [if_neg hc]
    exact ⟨rfl, nofun⟩

variable {cc : ChainConfig H} {k : ℕ} {e e' : R × App}

theorem Lawful.number_get (hop : op.Lawful cc) (h : (op.accepted app rs)[k]? = some e) :
    (op.head e.2).header.number = (op.head app).header.number + 1 + k := by
  induction rs generalizing app k with
  | nil => simp [accepted] at h
  | cons r rs ih =>
    obtain ⟨app₁, hinst, h⟩ := exists_install h
    cases k with
    | zero =>
      obtain rfl : (r, app₁) = e := by simpa using h
      exact hop.number hinst
    | succ k =>
      rw [ih (by simpa using h), hop.number hinst]
      omega

/-- Each accepted block request has its block as the head. -/
theorem Lawful.head_eq (hop : op.Lawful cc) (h : (op.accepted app rs)[k]? = some e) {b : Block H}
    (hb : op.block e.1 = some b) : op.head e.2 = b := by
  induction rs generalizing app k with
  | nil => simp [accepted] at h
  | cons r rs ih =>
    obtain ⟨app₁, hinst, h⟩ := exists_install h
    cases k with
    | zero =>
      obtain rfl : (r, app₁) = e := by simpa using h
      exact hop.block hinst hb
    | succ k => exact ih (by simpa using h)

/-- **Each accepted block is the parent of the next.** -/
theorem Lawful.isParent (hop : op.Lawful cc) (h : (op.accepted app rs)[k]? = some e)
    (h' : (op.accepted app rs)[k + 1]? = some e') :
    Block.IsParent cc (op.head e.2) (op.head e'.2) := by
  induction rs generalizing app k with
  | nil => simp [accepted] at h
  | cons r rs ih =>
    obtain ⟨app₁, hinst, h⟩ := exists_install h
    rw [accepted_cons hinst, List.getElem?_cons_succ] at h'
    cases k with
    | zero =>
      obtain rfl : (r, app₁) = e := by simpa using h
      cases rs with
      | nil => simp [accepted] at h'
      | cons r' rs =>
        obtain ⟨app₂, hinst', h'⟩ := exists_install h'
        obtain rfl : (r', app₂) = e' := by simpa using h'
        exact ⟨hop.hash hinst, hop.parent hinst'⟩
    | succ k => exact ih (by simpa using h) h'

end OldInstall

/-! ## The two modules -/

section

variable [DecidableEq H] (cc : ChainConfig H)

/-- What the relay module does with an old request. -/
def RawRelay.oldInstall : OldInstall (BlockChain H) (Option (Request H)) H where
  install bc r :=
    match r with
    | none => some none
    | some r =>
      if r.requestType ≠ .block then some none
      else
        r.content.bind fun b =>
          (bc.addBlock cc b).map fun res =>
            match res with
            | .error _ => none
            | .ok bc' => some bc'
  head bc := bc.currentBlock
  block r := (r.bind Request.content).join

theorem RawRelay.handleforSequentialRequest_eq (bc : BlockChain H)
    (som : SendOldMessage (Option (Request H))) :
    RawRelay.handleforSequentialRequest cc bc som = (RawRelay.oldInstall cc).sequential bc som := by
  have hloop : ∀ rs bc, RawRelay.installOld cc rs bc =
      (RawRelay.oldInstall cc).installLoop bc rs := by
    intro rs
    induction rs with
    | nil => exact fun bc => rfl
    | cons r rs ih =>
      intro bc
      cases r with
      | none => rfl
      | some r =>
        rw [RawRelay.installOld, OldInstall.installLoop, RawRelay.oldInstall]
        dsimp only
        split
        · rfl
        · cases r.content with
          | none => rfl
          | some b =>
            rw [Option.bind_some, Option.bind_some]
            cases bc.addBlock cc b with
            | none => rfl
            | some res =>
              cases res with
              | error e => rfl
              | ok bc' => exact ih bc'
  rw [RawRelay.handleforSequentialRequest, OldInstall.sequential, ← hloop]
  by_cases hc : OldInstall.Complete som
  · rw [if_pos hc, if_neg fun h => h.elim (fun hlt => hlt.not_ge hc.1) fun hne => hne hc.2]
  · rw [if_neg hc, if_pos]
    by_contra h
    rw [not_or, not_lt, not_not] at h
    exact hc h

/-- `message.Request`, as the CLPA module reads it. -/
structure ClpaRequest (H : Type) where
  /-- `RequestType` -/
  requestType : RequestType
  /-- what `core.DecodeB` makes of the content -/
  block : Option (Option (Block H))
  /-- what `message.DecodeAccountTransferMsg` makes of it -/
  transfer : Option AccountTransferMsg
  /-- `ReqTime` -/
  reqTime : Time

/-- What the CLPA module does with an old request. -/
def ClpaNode.oldInstall : OldInstall (ClpaNode H) (Option (ClpaRequest H)) H where
  install nd r :=
    match r with
    | none => some none
    | some r =>
      match r.requestType with
      | .block =>
        r.block.bind fun b =>
          (nd.curChain.addBlock cc b).map fun res =>
            match res with
            | .error _ => none
            | .ok bc' => some { nd with curChain := bc' }
      | .partitionReq => r.transfer.bind fun atm => (nd.accountTransferDo cc atm).map some
      | .other => some none
  head nd := nd.curChain.currentBlock
  block r := r.bind fun r =>
    match r.requestType with
    | .block => r.block.join
    | _ => none

/-- `HandleforSequentialRequest` of the CLPA module. -/
def ClpaNode.handleforSequentialRequest (nd : ClpaNode H)
    (som : SendOldMessage (Option (ClpaRequest H))) : Option (Bool × ClpaNode H) :=
  (ClpaNode.oldInstall cc).sequential nd som

variable {cc}

theorem BlockChain.addBlock_links {bc bc' : BlockChain H} {b : Option (Block H)}
    (h : bc.addBlock cc b = some (.ok bc')) :
    b = some bc'.currentBlock ∧
      bc'.currentBlock.header.number = bc.currentBlock.header.number + 1 ∧
      bc'.currentBlock.header.parentBlockHash = bc.currentBlock.hash ∧
      cc.hash.headerHash bc'.currentBlock.header = bc'.currentBlock.hash := by
  obtain ⟨b', storage, rfl, hv, -, rfl⟩ := BlockChain.addBlock_eq_ok h
  obtain ⟨hnumber, hparent, -, hhash, -, -⟩ := BlockChain.isValidBlock_eq_ok.mp hv
  exact ⟨rfl, hnumber, hparent, hhash⟩

theorem RawRelay.oldInstall_eq {bc bc' : BlockChain H} {r : Option (Request H)}
    (h : (RawRelay.oldInstall cc).install bc r = some (some bc')) :
    ∃ req b, r = some req ∧ req.content = some b ∧ bc.addBlock cc b = some (.ok bc') := by
  rcases r with _ | req
  · cases h
  · rw [RawRelay.oldInstall] at h
    dsimp only at h
    split at h
    · cases h
    · obtain ⟨b, hb, h⟩ := Option.bind_eq_some_iff.mp h
      obtain ⟨res, hadd, h⟩ := Option.map_eq_some_iff.mp h
      cases res with
      | error e => cases h
      | ok bc₁ =>
        cases h
        exact ⟨req, b, rfl, hb, hadd⟩

theorem RawRelay.oldInstall_ok {bc bc' : BlockChain H} {b : Option (Block H)} {reqTime : Time}
    (h : bc.addBlock cc b = some (.ok bc')) :
    (RawRelay.oldInstall cc).install bc (some ⟨.block, some b, reqTime⟩) = some (some bc') := by
  change (if RequestType.block ≠ .block then some none else
    (bc.addBlock cc b).map fun res => match res with
      | .error _ => none
      | .ok bc' => some bc') = _
  rw [if_neg (not_not.mpr rfl), h]
  rfl

theorem RawRelay.oldInstall_lawful : (RawRelay.oldInstall cc).Lawful cc where
  number h := by
    obtain ⟨_, _, _, _, hadd⟩ := RawRelay.oldInstall_eq h
    exact (BlockChain.addBlock_links hadd).2.1
  parent h := by
    obtain ⟨_, _, _, _, hadd⟩ := RawRelay.oldInstall_eq h
    exact (BlockChain.addBlock_links hadd).2.2.1
  hash h := by
    obtain ⟨_, _, _, _, hadd⟩ := RawRelay.oldInstall_eq h
    exact (BlockChain.addBlock_links hadd).2.2.2
  block h hblock := by
    obtain ⟨req, b, rfl, hb, hadd⟩ := RawRelay.oldInstall_eq h
    obtain ⟨rfl, -⟩ := BlockChain.addBlock_links hadd
    have hjoin : (req.content).join = some _ := hblock
    rw [hb] at hjoin
    exact Option.some.inj hjoin

/-- What an old request does to the chain of a CLPA node: it adds its block, or it installs
its transfer. -/
theorem ClpaNode.oldInstall_eq {nd nd' : ClpaNode H} {r : Option (ClpaRequest H)}
    (h : (ClpaNode.oldInstall cc).install nd r = some (some nd')) :
    (∃ b, nd.curChain.addBlock cc b = some (.ok nd'.curChain) ∧
        ∀ b', (ClpaNode.oldInstall cc).block r = some b' → b = some b') ∨
      (∃ atm, nd.accountTransferDo cc atm = some nd') ∧
        (ClpaNode.oldInstall cc).block r = none := by
  rcases r with _ | ⟨type, block, transfer, time⟩
  · cases h
  · cases type with
    | block =>
      obtain ⟨b, hb, h⟩ := Option.bind_eq_some_iff.mp h
      obtain ⟨res, hadd, h⟩ := Option.map_eq_some_iff.mp h
      cases res with
      | error e => cases h
      | ok bc₁ =>
        cases h
        refine .inl ⟨b, hadd, fun b' hb' => ?_⟩
        obtain rfl : block = some b := hb
        exact hb'
    | partitionReq =>
      obtain ⟨atm, -, h⟩ := Option.bind_eq_some_iff.mp h
      obtain ⟨nd₁, hdo, h⟩ := Option.map_eq_some_iff.mp h
      cases h
      exact .inr ⟨⟨atm, hdo⟩, rfl⟩
    | other => cases h

/-- A transfer puts a block over the head. -/
theorem ClpaNode.accountTransferDo_links {nd nd' : ClpaNode H} {atm : AccountTransferMsg}
    (h : nd.accountTransferDo cc atm = some nd') :
    nd'.curChain.currentBlock.header.number = nd.curChain.currentBlock.header.number + 1 ∧
      nd'.curChain.currentBlock.header.parentBlockHash = nd.curChain.currentBlock.hash ∧
      cc.hash.headerHash nd'.curChain.currentBlock.header = nd'.curChain.currentBlock.hash := by
  rw [ClpaNode.accountTransferDo] at h
  obtain ⟨bc, hadd, rfl⟩ := Option.map_eq_some_iff.mp h
  rw [ClpaNode.foldl_updatePartitionMap] at hadd
  obtain ⟨b, storage, -, hnumber, hparent, hhash, -, -, rfl⟩ := BlockChain.addAccounts_eq_some hadd
  exact ⟨hnumber, hparent, hhash.symm⟩

theorem ClpaNode.oldInstall_lawful : (ClpaNode.oldInstall cc).Lawful cc where
  number h := by
    rcases ClpaNode.oldInstall_eq h with ⟨b, hadd, -⟩ | ⟨⟨atm, hdo⟩, -⟩
    · exact (BlockChain.addBlock_links hadd).2.1
    · exact (ClpaNode.accountTransferDo_links hdo).1
  parent h := by
    rcases ClpaNode.oldInstall_eq h with ⟨b, hadd, -⟩ | ⟨⟨atm, hdo⟩, -⟩
    · exact (BlockChain.addBlock_links hadd).2.2.1
    · exact (ClpaNode.accountTransferDo_links hdo).2.1
  hash h := by
    rcases ClpaNode.oldInstall_eq h with ⟨b, hadd, -⟩ | ⟨⟨atm, hdo⟩, -⟩
    · exact (BlockChain.addBlock_links hadd).2.2.2
    · exact (ClpaNode.accountTransferDo_links hdo).2.2
  block h hblock := by
    rcases ClpaNode.oldInstall_eq h with ⟨b, hadd, hb⟩ | ⟨-, hnone⟩
    · obtain rfl := hb _ hblock
      exact Option.some.inj (BlockChain.addBlock_links hadd).1.symm
    · rw [hnone] at hblock
      cases hblock

end

/-! ## Decided requests -/

section

variable {App R D In Out : Type} (cc : ChainConfig H) (cfg : PbftConfig App R D In Out)
  (op : OldInstall App R H) (p : PbftNode App R D) (som : SendOldMessage R)

/-- A node holds a quorum of commit votes for the digest of a request. -/
def PbftNode.Decided (r : R) : Prop :=
  cfg.quorum ≤ (p.cntCommitConfirm (cfg.getDigest r)).card

/-- An installed request is decided, or its block is an ancestor of a decided one. -/
def PbftNode.Backed (e : R × App) : Prop :=
  p.Decided cfg e.1 ∨
    ∃ r b, p.Decided cfg r ∧ op.block r = some b ∧ Block.IsAncestor cc (op.head e.2) b

/-- **Only decided requests are installed**, each at the number that the message claims. -/
def PbftNode.InstallsDecided : Prop :=
  ∀ k e, (op.installed p.curChain som)[k]? = some e →
    p.Backed cc cfg op e ∧ (op.head e.2).header.number = som.seqStartHeight + k

/-- A message starts behind the chain, and the last of the requests that are installed is
backed, as is each before a transfer. -/
def PbftNode.EndsDecided : Prop :=
  op.installed p.curChain som = [] ∨
    som.seqStartHeight = (op.head p.curChain).header.number + 1 ∧
      ∀ k e, (op.installed p.curChain som)[k]? = some e →
        (∀ e', (op.installed p.curChain som)[k + 1]? = some e' → op.block e'.1 = none) →
          p.Backed cc cfg op e

variable {cc cfg op p som}

/-- What `handleSendOldSeq` makes of the chain. -/
theorem PbftNode.handleSendOldSeq_curChain [DecidableEq D] {ok : Bool} {app : App}
    (hseq : cfg.ihm.handleforSequentialRequest = op.sequential)
    (h : op.sequential p.curChain som = some (ok, app)) :
    (p.handleSendOldSeq cfg som).1.curChain =
      OldInstall.reached p.curChain (op.installed p.curChain som) := by
  obtain ⟨rfl, -⟩ := OldInstall.sequential_eq_some h
  have hrecord : ∀ n rs (q : PbftNode App R D),
      (PbftNode.recordOld cfg n rs q).curChain = q.curChain := by
    intro n rs
    induction rs generalizing n with
    | nil => exact fun q => rfl
    | cons r rs ih => exact fun q => ih _ _
  rw [PbftNode.handleSendOldSeq, hseq, h]
  cases ok with
  | false =>
    dsimp only
    rw [PbftNode.unlockAskFor_eq]
  | true =>
    dsimp only
    split
    · rw [PbftNode.unlockAskFor_eq]
      exact hrecord _ _ _
    · split
      · exact hrecord _ _ _
      · rw [PbftNode.unlockAskFor_eq]
        exact hrecord _ _ _
      · rw [PbftNode.unlockAskFor_eq]
        exact hrecord _ _ _

/-- A block below a backed block is backed. -/
theorem PbftNode.Backed.of_next {e e' : R × App} (h : p.Backed cc cfg op e')
    (hparent : Block.IsParent cc (op.head e.2) (op.head e'.2)) {b : Block H}
    (hb : op.block e'.1 = some b) (hhead : op.head e'.2 = b) : p.Backed cc cfg op e := by
  rcases h with hdec | ⟨r, b', hdec, hr, hanc⟩
  · exact .inr ⟨e'.1, b, hdec, hb, hhead ▸ .single hparent⟩
  · exact .inr ⟨r, b', hdec, hr, .head hparent hanc⟩

/-- **Backed at the ends is backed everywhere.** -/
theorem PbftNode.backed_of_ends {app : App} {rs : List R} (hop : op.Lawful cc)
    (hends : ∀ k e, (op.accepted app rs)[k]? = some e →
      (∀ e', (op.accepted app rs)[k + 1]? = some e' → op.block e'.1 = none) →
        p.Backed cc cfg op e)
    (n k : ℕ) (e : R × App) (hn : (op.accepted app rs).length = k + 1 + n)
    (he : (op.accepted app rs)[k]? = some e) : p.Backed cc cfg op e := by
  -- from the last one down
  induction n generalizing k e with
  | zero =>
    refine hends k e he fun e' he' => ?_
    obtain ⟨hlt, -⟩ := List.getElem?_eq_some_iff.mp he'
    omega
  | succ n ih =>
    have hlt : k + 1 < (op.accepted app rs).length := by omega
    have he' : (op.accepted app rs)[k + 1]? = some (op.accepted app rs)[k + 1] :=
      List.getElem?_eq_getElem hlt
    cases hb : op.block (op.accepted app rs)[k + 1].1 with
    | none =>
      refine hends k e he fun e' h => ?_
      rw [he'] at h
      cases h
      exact hb
    | some b =>
      exact (ih (k + 1) _ (by omega) he').of_next (hop.isParent he he') hb (hop.head_eq he' hb)

/-- **Exactly when** a message has only decided requests installed. -/
theorem PbftNode.installsDecided_iff_endsDecided (hop : op.Lawful cc) :
    p.InstallsDecided cc cfg op som ↔ p.EndsDecided cc cfg op som := by
  rw [InstallsDecided, EndsDecided, OldInstall.installed]
  split
  · constructor
    · intro h
      rcases hlist : op.accepted p.curChain som.oldRequest with _ | ⟨e, es⟩
      · exact .inl rfl
      · rw [hlist] at h
        refine .inr ⟨?_, fun k e he _ => (h k e he).1⟩
        obtain ⟨-, hnumber⟩ := h 0 e rfl
        have := hop.number_get (k := 0) (e := e) (by rw [hlist]; rfl)
        omega
    · rintro (hnil | ⟨hstart, hends⟩) k e he
      · rw [hnil] at he
        simp at he
      · obtain ⟨hlt, -⟩ := List.getElem?_eq_some_iff.mp he
        refine ⟨PbftNode.backed_of_ends hop hends
          ((op.accepted p.curChain som.oldRequest).length - (k + 1)) k e (by omega) he, ?_⟩
        rw [hop.number_get he, hstart]
  · exact iff_of_true (fun k e he => by simp at he) (.inl rfl)

end

variable [DecidableEq H] {D In Out : Type}

/-- A node with the relay module. -/
def relayModule (cc : ChainConfig H)
    (base : PbftConfig (BlockChain H) (Option (Request H)) D In Outgoing) :
    PbftConfig (BlockChain H) (Option (Request H)) D In Outgoing :=
  { base with ihm := RawRelay.ihm cc }

/-- A node with the CLPA module, as far as old requests go. -/
def clpaModule (cc : ChainConfig H)
    (base : PbftConfig (ClpaNode H) (Option (ClpaRequest H)) D In Out) :
    PbftConfig (ClpaNode H) (Option (ClpaRequest H)) D In Out :=
  { base with
    ihm := { base.ihm with
      height := fun nd => nd.curChain.currentBlock.header.number
      handleforSequentialRequest := ClpaNode.handleforSequentialRequest cc } }

/-- **Only decided requests are installed** by a node, of either module, exactly where the
message starts behind its chain and ends with a decided request or an ancestor of a decided
block, as does what is before each transfer. -/
theorem installsDecided_iff (cc : ChainConfig H) :
    (∀ (base : PbftConfig (BlockChain H) (Option (Request H)) D In Outgoing)
        (p : PbftNode (BlockChain H) (Option (Request H)) D)
        (som : SendOldMessage (Option (Request H))),
      p.InstallsDecided cc (relayModule cc base) (RawRelay.oldInstall cc) som ↔
        p.EndsDecided cc (relayModule cc base) (RawRelay.oldInstall cc) som) ∧
    ∀ (base : PbftConfig (ClpaNode H) (Option (ClpaRequest H)) D In Out)
        (p : PbftNode (ClpaNode H) (Option (ClpaRequest H)) D)
        (som : SendOldMessage (Option (ClpaRequest H))),
      p.InstallsDecided cc (clpaModule cc base) (ClpaNode.oldInstall cc) som ↔
        p.EndsDecided cc (clpaModule cc base) (ClpaNode.oldInstall cc) som :=
  ⟨fun _ _ _ => PbftNode.installsDecided_iff_endsDecided RawRelay.oldInstall_lawful,
    fun _ _ _ => PbftNode.installsDecided_iff_endsDecided ClpaNode.oldInstall_lawful⟩

/-- What `handleSendOldSeq` makes of the chain of a relay node. -/
theorem handleSendOldSeq_relay [DecidableEq D] {cc : ChainConfig H}
    {base : PbftConfig (BlockChain H) (Option (Request H)) D In Outgoing}
    {p : PbftNode (BlockChain H) (Option (Request H)) D}
    {som : SendOldMessage (Option (Request H))} {ok : Bool} {bc : BlockChain H}
    (h : RawRelay.handleforSequentialRequest cc p.curChain som = some (ok, bc)) :
    (p.handleSendOldSeq (relayModule cc base) som).1.curChain =
      OldInstall.reached p.curChain ((RawRelay.oldInstall cc).installed p.curChain som) := by
  rw [RawRelay.handleforSequentialRequest_eq] at h
  refine PbftNode.handleSendOldSeq_curChain ?_ h
  funext bc som
  exact RawRelay.handleforSequentialRequest_eq cc bc som

/-! ## A block that nobody has voted for -/

/-- Node 3 holds the votes of the others for an empty block, and has asked for it. -/
def waitingNode : PbftNode (BlockChain FreeHash) FreeRequest FreeRequest :=
  { fourNodesFresh with
    cntCommitConfirm := Function.update (fun _ => ∅) (emptyRequest 0 8) {0, 1, 2}
    askForLock := true }

/-- It is sent a payment in its place. -/
def crossAnswer : SendOldMessage FreeRequest := ⟨1, 1, [crossRequest]⟩

theorem not_isAncestor_crossBlock {b : Block FreeHash}
    (hb : b.header.parentBlockHash = (BlockChain.newGenisisBlock fourNodesChain).hash) :
    ¬ Block.IsAncestor fourNodesChain crossBlock b := by
  intro h
  obtain ⟨y, hy, hparent⟩ := Relation.TransGen.tail'_iff.mp h
  -- the parent is the genesis block, and that has no parent
  have hheader : y.header = (BlockChain.newGenisisBlock fourNodesChain).header := by
    apply freeHash_injective
    exact hparent.1.trans (hparent.2.symm.trans hb)
  rcases Relation.ReflTransGen.cases_tail hy with rfl | ⟨x, -, hx⟩
  · have hnumber := congrArg BlockHeader.number hheader
    exact absurd hnumber (by decide)
  · have hnil := hx.1.trans hx.2.symm
    rw [hheader] at hnil
    cases hnil

/-- The node installs it. -/
theorem installs_undecided :
    ¬ ∀ (p : PbftNode (BlockChain FreeHash) FreeRequest FreeRequest)
      (som : SendOldMessage FreeRequest),
      p.InstallsDecided fourNodesChain (relayModule fourNodesChain (fourNodes.at 3))
        (RawRelay.oldInstall fourNodesChain) som := by
  intro h
  have hdecided : ∀ r, waitingNode.Decided (relayModule fourNodesChain (fourNodes.at 3)) r →
      r = emptyRequest 0 8 := by
    intro r hr
    by_contra hne
    have hvotes : waitingNode.cntCommitConfirm r = ∅ := by
      simp only [waitingNode, Function.update_apply, if_neg hne]
    have hcard : 3 ≤ (waitingNode.cntCommitConfirm r).card := hr
    rw [hvotes, Finset.card_empty] at hcard
    omega
  obtain ⟨bc₁, hok⟩ := BlockChain.accepts_iff.mp
    (show (genesisChain fourNodesChain).accepts fourNodesChain crossBlock = true by decide +kernel)
  have hinstall : (RawRelay.oldInstall fourNodesChain).install (genesisChain fourNodesChain)
      crossRequest = some (some bc₁) := RawRelay.oldInstall_ok hok
  have hget : ((RawRelay.oldInstall fourNodesChain).installed waitingNode.curChain
      crossAnswer)[0]? = some (crossRequest, bc₁) := by
    change ((RawRelay.oldInstall fourNodesChain).accepted (genesisChain fourNodesChain)
      [crossRequest])[0]? = _
    rw [OldInstall.accepted_cons hinstall]
    rfl
  obtain ⟨hbacked, -⟩ := h waitingNode crossAnswer 0 _ hget
  rcases hbacked with hdec | ⟨r, b, hdec, hb, hanc⟩
  · have hne : crossRequest ≠ emptyRequest 0 8 := by decide +kernel
    exact hne (hdecided _ hdec)
  · obtain rfl := hdecided r hdec
    obtain rfl : _ = b := Option.some.inj hb
    have hhead : bc₁.currentBlock = crossBlock :=
      (Option.some.inj (BlockChain.addBlock_links hok).1).symm
    change Block.IsAncestor fourNodesChain bc₁.currentBlock _ at hanc
    rw [hhead] at hanc
    exact not_isAncestor_crossBlock rfl hanc

end BlockEmulator
