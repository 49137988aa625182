import BlockEmulator.Memo
import BlockEmulator.V2Rows

/-!
# The scene of every transaction (`prepare_iot_v2_dataset.py`)

`build` gives every row of the transaction file a scene: the accounts get a device profile
and a site by their addresses, the transaction a flow template by its global index and its
row. A large file is prepared in chunks, each with the number of the rows before it as its
`index_offset`. The counters of the summary, which no row depends on, are left out.

* `buildLoop_eq` — the cache of accounts can be forgotten: a scene depends on the global
  index and on the row.
* `build_chunks` — **the scenes do not depend on how the file is cut**, as long as no later
  chunk begins with a byte order mark.
* `build_prefix` — appended transactions leave the earlier scenes as they are.
-/

namespace BlockEmulator

open Memo

/-! ## `stable_int` -/

/-- What `stable_int` makes a digest of. -/
inductive JsonPart where
  /-- a number -/
  | int (n : ℤ)
  /-- a text -/
  | str (text : String)
  /-- a row -/
  | row (cells : Row)

/-- `\uXXXX`. -/
def jsonUnicode (n : ℕ) : List Char :=
  ['\\', 'u', Nat.digitChar (n / 4096 % 16), Nat.digitChar (n / 256 % 16),
    Nat.digitChar (n / 16 % 16), Nat.digitChar (n % 16)]

/-- A character of a text, with `ensure_ascii`. -/
def jsonChar (c : Char) : List Char :=
  let n := c.toNat
  if c = '"' then ['\\', '"']
  else if c = '\\' then ['\\', '\\']
  else if c = '\n' then ['\\', 'n']
  else if c = '\r' then ['\\', 'r']
  else if c = '\t' then ['\\', 't']
  else if n = 12 then ['\\', 'f']
  else if n = 8 then ['\\', 'b']
  else if 32 ≤ n ∧ n ≤ 126 then [c]
  else if n < 0x10000 then jsonUnicode n
  else
    jsonUnicode (0xD800 + (n - 0x10000) / 1024) ++ jsonUnicode (0xDC00 + (n - 0x10000) % 1024)

/-- A text of a JSON text. -/
def jsonText (text : String) : List Char := '"' :: text.toList.flatMap jsonChar ++ ['"']

/-- A list of a JSON text, its items already written. -/
def jsonList (items : List (List Char)) : List Char := '[' :: [','].intercalate items ++ [']']

/-- An item of the list. -/
def jsonPart : JsonPart → List Char
  | .int n => (toString n).toList
  | .str text => jsonText text
  | .row cells => jsonList (cells.map jsonText)

/-- `VERSION`. -/
def sceneVersion : String := "real_accounts_iot_scene_v2_1"

/-- The message of `stable_int`. -/
def stableMessage (seed : ℤ) (purpose : String) (parts : List JsonPart) : List Char :=
  jsonList ((.str sceneVersion :: .int seed :: .str purpose :: parts).map jsonPart)

/-! ## The scene library and the accounts -/

/-- A site: where it is. -/
abbrev SitePlace : Type := FloatValue × FloatValue

/-- A row of `device_profiles.csv`. -/
structure DeviceProfile where
  /-- `profile_id` -/
  profileId : String
  /-- `device_label` -/
  deviceLabel : String

/-- A row of `flow_templates.csv`. -/
structure FlowTemplate where
  /-- `template_id` -/
  templateId : String
  /-- `protocol` -/
  protocol : String
  /-- the four numbers of `FLOW_NUMERIC` -/
  flowNumeric : List String
  /-- `flowDuration` -/
  flowDuration : String
  /-- `is_control_protocol` -/
  isControlProtocol : String
  deriving DecidableEq

/-- What `load_library` returns. -/
structure SceneLibrary where
  /-- `profiles` -/
  profiles : List DeviceProfile
  /-- `sites` -/
  sites : List (ℤ × SitePlace)
  /-- `links`: the quality and the rule -/
  links : List ((ℤ × ℤ) × (FloatValue × String))
  /-- `templates` -/
  templates : List (String × List FlowTemplate)

/-- What the interpreter gives. -/
structure SceneEnv where
  /-- the first 16 bytes of the SHA-256 of an ASCII text, as a number -/
  digest : List Char → ℕ
  /-- `str.lower` -/
  lower : String → String
  /-- `format(math.hypot(x - x', y - y'), ".12g")` -/
  distanceText : SitePlace → SitePlace → String
  /-- `format(q, ".17g")` -/
  qualityText : FloatValue → String
  /-- whether `float` takes a text -/
  isFloat : String → Bool

/-- What `map_account` returns, and `first_tx_index`. -/
structure SceneAccount where
  /-- `account_address` -/
  accountAddress : String
  /-- `profile_id` -/
  profileId : String
  /-- `device_label` -/
  deviceLabel : String
  /-- `actor_type` -/
  actorType : String
  /-- `site_id` -/
  siteId : ℤ
  /-- `x_m` and `y_m` -/
  place : SitePlace
  /-- `first_tx_index` -/
  firstTxIndex : ℤ

/-- A row of `transaction_scene.csv`. -/
structure SceneRecord where
  /-- `tx_index` -/
  txIndex : ℤ
  /-- `source_row` -/
  sourceRow : ℕ
  /-- `from_address` -/
  fromAddress : String
  /-- `to_address` -/
  toAddress : String
  /-- `from_profile_id` -/
  fromProfileId : String
  /-- `to_profile_id` -/
  toProfileId : String
  /-- `from_site_id` -/
  fromSiteId : ℤ
  /-- `to_site_id` -/
  toSiteId : ℤ
  /-- `from_actor_type` -/
  fromActorType : String
  /-- `to_actor_type` -/
  toActorType : String
  /-- the template: its id, its protocol and its numbers -/
  template : FlowTemplate
  /-- `distance_m` -/
  distanceM : String
  /-- `link_quality_forward` -/
  linkQualityForward : String
  /-- `link_quality_reverse` -/
  linkQualityReverse : String
  /-- `link_quality_rule` -/
  linkQualityRule : String
  deriving DecidableEq

section Build

variable (E : SceneEnv) (L : SceneLibrary) (seed : ℤ)

/-- `stable_int`. -/
def stableInt (purpose : String) (parts : List JsonPart) : ℕ :=
  E.digest (stableMessage seed purpose parts)

/-- `items[n % len(items)]`; `none` is a `ZeroDivisionError`. -/
def pickModulo {α : Type} (items : List α) (n : ℕ) : Option α := items[n % items.length]?

/-- `map_account`; `none` is an exception. -/
def mapAccount (address : String) (firstTxIndex : ℤ) : Option SceneAccount := do
  let normalized := E.lower address
  let profile ← pickModulo L.profiles (stableInt E seed "profile" [.str normalized])
  let ids := (L.sites.map (·.1)).mergeSort fun a b => a ≤ b
  let site ← pickModulo ids (stableInt E seed "site" [.str normalized])
  let place ← L.sites.lookup site
  return ⟨normalized, profile.profileId, profile.deviceLabel, "device", site, place, firstTxIndex⟩

/-- `template_for`; `none` is an exception. -/
def templateFor (row : Row) (globalIndex : ℤ) (account : SceneAccount) : Option FlowTemplate :=
  (L.templates.lookup account.profileId).bind fun pool =>
    pickModulo pool (stableInt E seed "transaction_template" [.int globalIndex, .row row])

/-- The record of a row, once its accounts are known; `none` is an exception. -/
def sceneRecord (row : Row) (globalIndex : ℤ) (sourceRow : ℕ) (a b : String)
    (sender recipient : SceneAccount) : Option SceneRecord := do
  let sample ← templateFor E L seed row globalIndex sender
  let forward ← L.links.lookup (sender.siteId, recipient.siteId)
  let reverse ← L.links.lookup (recipient.siteId, sender.siteId)
  if E.isFloat sample.flowDuration = false then none
  return {
    txIndex := globalIndex
    sourceRow := sourceRow
    fromAddress := a
    toAddress := b
    fromProfileId := sender.profileId
    toProfileId := recipient.profileId
    fromSiteId := sender.siteId
    toSiteId := recipient.siteId
    fromActorType := "device"
    toActorType := "device"
    template := sample
    distanceM := E.distanceText sender.place recipient.place
    linkQualityForward := E.qualityText forward.1
    linkQualityReverse := E.qualityText reverse.1
    linkQualityRule := forward.2 }

/-- One round of the loop of `build`: the accounts, and the record that is written. -/
def buildRound (indexOffset : ℤ) (accounts : Cache String SceneAccount) (localIndex : ℕ)
    (row : Row) : Option (Cache String SceneAccount × SceneRecord) := do
  let (a, b) ← checkChainRow row
  let globalIndex := indexOffset + localIndex
  let accounts ← ensure (mapAccount E L seed · globalIndex) accounts a
  let accounts ← ensure (mapAccount E L seed · globalIndex) accounts b
  let sender ← accounts.lookup a
  let recipient ← accounts.lookup b
  let record ← sceneRecord E L seed row globalIndex (localIndex + 1) a b sender recipient
  return (accounts, record)

/-- The loop of `build`: what is written from `localIndex` on. -/
def buildLoop (indexOffset : ℤ) :
    Cache String SceneAccount → ℕ → List Row → Option (List SceneRecord)
  | _, _, [] => some []
  | accounts, localIndex, row :: rows =>
    (buildRound E L seed indexOffset accounts localIndex row).bind fun r =>
      (buildLoop indexOffset r.1 (localIndex + 1) rows).map (r.2 :: ·)

/-- `build`: the rows of `transaction_scene.csv`; `none` is an exception. -/
def buildScenes (indexOffset : ℤ) (chain : List Row) : Option (List SceneRecord) :=
  if indexOffset < 0 then none
  else
    (buildLoop E L seed indexOffset [] 0 (withoutMark chain)).bind fun records =>
      if records = [] then none else some records

/-- The chunks of a file one after another, each with the number of the rows before it. -/
def buildChunks (indexOffset : ℤ) : List (List Row) → Option (List SceneRecord)
  | [] => some []
  | chunk :: chunks =>
    (buildScenes E L seed indexOffset chunk).bind fun records =>
      (buildChunks (indexOffset + chunk.length) chunks).map (records ++ ·)

/-! ## A scene depends on the global index and the row -/

/-- The scene of a row, its accounts made anew. -/
def sceneOf (globalIndex : ℤ) (sourceRow : ℕ) (row : Row) : Option SceneRecord :=
  (checkChainRow row).bind fun ab =>
    (mapAccount E L seed ab.1 0).bind fun sender =>
      (mapAccount E L seed ab.2 0).bind fun recipient =>
        sceneRecord E L seed row globalIndex sourceRow ab.1 ab.2 sender recipient

/-- An account without the index of its first transaction. -/
def SceneAccount.mapped (account : SceneAccount) : SceneAccount :=
  { account with firstTxIndex := 0 }

/-- A record without its `source_row`. -/
def SceneRecord.withoutSourceRow (record : SceneRecord) : SceneRecord :=
  { record with sourceRow := 0 }

variable {E L seed}

theorem mapAccount_mapped (address : String) (i : ℤ) :
    (mapAccount E L seed address i).map SceneAccount.mapped = mapAccount E L seed address 0 := by
  simp only [mapAccount, Option.bind_eq_bind, Option.map_bind, Function.comp_def]
  rfl

theorem sceneRecord_mapped (row : Row) (globalIndex : ℤ) (sourceRow : ℕ) (a b : String)
    (sender recipient : SceneAccount) :
    sceneRecord E L seed row globalIndex sourceRow a b sender recipient =
      sceneRecord E L seed row globalIndex sourceRow a b sender.mapped recipient.mapped :=
  rfl

/-- The cache holds what `map_account` returns. -/
abbrev Mapped (E : SceneEnv) (L : SceneLibrary) (seed : ℤ) : Cache String SceneAccount → Prop :=
  Faithful SceneAccount.mapped (mapAccount E L seed · 0)

/-- **One round**: with such a cache the record is the scene of the row, and the cache
stays one. -/
theorem buildRound_spec (indexOffset : ℤ) {accounts : Cache String SceneAccount}
    (hc : Mapped E L seed accounts) (localIndex : ℕ) (row : Row) :
    (buildRound E L seed indexOffset accounts localIndex row).map Prod.snd =
        sceneOf E L seed (indexOffset + localIndex) (localIndex + 1) row ∧
      ∀ r, buildRound E L seed indexOffset accounts localIndex row = some r →
        Mapped E L seed r.1 := by
  rw [buildRound, sceneOf]
  cases checkChainRow row with
  | none => exact ⟨rfl, fun _ h => nomatch h⟩
  | some ab =>
    obtain ⟨a, b⟩ := ab
    simp only [Option.bind_eq_bind, Option.bind_some]
    have hmake : ∀ k, (mapAccount E L seed k (indexOffset + localIndex)).map
        SceneAccount.mapped = mapAccount E L seed k 0 := fun k => mapAccount_mapped k _
    cases h₁ : ensure (mapAccount E L seed · (indexOffset + localIndex)) accounts a with
    | none =>
      have hnone := (hc.ensure_none_iff (hmake a)).mp h₁
      simp only [hnone]
      exact ⟨rfl, fun _ h => nomatch h⟩
    | some accounts₁ =>
      have hc₁ := hc.ensure (hmake a) h₁
      obtain ⟨⟨sender, hsender⟩, -⟩ := lookup_ensure h₁
      simp only [Option.bind_some]
      cases h₂ : ensure (mapAccount E L seed · (indexOffset + localIndex)) accounts₁ b with
      | none =>
        have hnone := (hc₁.ensure_none_iff (hmake b)).mp h₂
        have hsome := hc₁ a sender hsender
        simp only [hnone, hsome]
        exact ⟨rfl, fun _ h => nomatch h⟩
      | some accounts₂ =>
        have hc₂ := hc₁.ensure (hmake b) h₂
        obtain ⟨⟨recipient, hrecipient⟩, hkept⟩ := lookup_ensure h₂
        have hsender₂ := hkept a sender hsender
        have hfrom := hc₂ a sender hsender₂
        have hto := hc₂ b recipient hrecipient
        simp only [Option.bind_some, hsender₂, hrecipient, hfrom, hto,
          ← sceneRecord_mapped]
        cases sceneRecord E L seed row (indexOffset + localIndex) (localIndex + 1) a b sender
          recipient with
        | none => exact ⟨rfl, fun _ h => nomatch h⟩
        | some record =>
          refine ⟨rfl, fun r hr => ?_⟩
          obtain rfl := Option.some.inj hr
          exact hc₂

/-- **The cache can be forgotten.** -/
theorem buildLoop_eq {indexOffset : ℤ} {accounts : Cache String SceneAccount}
    (hc : Mapped E L seed accounts) (localIndex : ℕ) (rows : List Row) :
    buildLoop E L seed indexOffset accounts localIndex rows =
      (rows.zipIdx localIndex).mapM fun p =>
        sceneOf E L seed (indexOffset + p.2) (p.2 + 1) p.1 := by
  induction rows generalizing accounts localIndex with
  | nil => rfl
  | cons row rows ih =>
    obtain ⟨hscene, hkept⟩ := buildRound_spec indexOffset hc localIndex row
    rw [buildLoop, List.zipIdx_cons, List.mapM_cons, ← hscene]
    cases hr : buildRound E L seed indexOffset accounts localIndex row with
    | none => rfl
    | some r =>
      rw [Option.bind_some, ih (hkept r hr), Option.map_eq_bind]
      rfl

/-- The scene rows of a file, without the cache. -/
theorem buildScenes_eq (indexOffset : ℤ) (chain : List Row) :
    buildScenes E L seed indexOffset chain =
      if indexOffset < 0 ∨ chain = [] then none
      else (withoutMark chain).zipIdx.mapM fun p =>
        sceneOf E L seed (indexOffset + p.2) (p.2 + 1) p.1 := by
  by_cases hoff : indexOffset < 0
  · rw [buildScenes, if_pos hoff, if_pos (.inl hoff)]
  · rw [buildScenes, if_neg hoff, buildLoop_eq faithful_nil]
    cases chain with
    | nil => rw [if_pos (.inr rfl)]; rfl
    | cons row rows =>
      rw [if_neg (not_or.mpr ⟨hoff, List.cons_ne_nil _ _⟩)]
      cases hrun : (withoutMark (row :: rows)).zipIdx.mapM fun p =>
          sceneOf E L seed (indexOffset + p.2) (p.2 + 1) p.1 with
      | none => rfl
      | some records =>
        have hlen := Fallible.mapM_length hrun
        rw [Option.bind_some, if_neg fun hnil => ?_]
        rw [hnil, List.length_zipIdx] at hlen
        exact absurd hlen (by simp [withoutMark])

/-- A scene without `source_row`. -/
theorem sceneOf_withoutSourceRow (globalIndex : ℤ) (sourceRow : ℕ) (row : Row) :
    (sceneOf E L seed globalIndex sourceRow row).map SceneRecord.withoutSourceRow =
      sceneOf E L seed globalIndex 0 row := by
  simp only [sceneOf, sceneRecord, Option.map_bind, Function.comp_def, Option.bind_eq_bind]
  refine Option.bind_congr fun ab _ => Option.bind_congr fun sender _ =>
    Option.bind_congr fun recipient _ => Option.bind_congr fun sample _ =>
    Option.bind_congr fun forward _ => Option.bind_congr fun reverse _ => ?_
  split <;> rfl

/-- A pass over a list, its results seen through a function. -/
theorem map_mapM {α β γ : Type} (g : β → γ) (f : α → Option β) (l : List α) :
    (l.mapM f).map (List.map g) = l.mapM fun x => (f x).map g := by
  induction l with
  | nil => rfl
  | cons x l ih =>
    rw [List.mapM_cons, List.mapM_cons, ← ih]
    cases f x <;> cases l.mapM f <;> rfl

/-! ## Chunks -/

/-- The scenes of rows that are read without a mark in front. -/
def scenesFrom (E : SceneEnv) (L : SceneLibrary) (seed indexOffset : ℤ) (rows : List Row) :
    Option (List SceneRecord) :=
  rows.zipIdx.mapM fun p => sceneOf E L seed (indexOffset + p.2) 0 p.1

theorem buildScenes_withoutSourceRow (indexOffset : ℤ) (chain : List Row) :
    (buildScenes E L seed indexOffset chain).map (List.map SceneRecord.withoutSourceRow) =
      if indexOffset < 0 ∨ chain = [] then none
      else scenesFrom E L seed indexOffset (withoutMark chain) := by
  rw [buildScenes_eq]
  split
  · rfl
  · rw [map_mapM, scenesFrom]
    congr 1
    funext p
    exact sceneOf_withoutSourceRow _ _ _

/-- Two parts of a file, the second with the number of the rows before it. -/
theorem scenesFrom_append (indexOffset : ℤ) (xs ys : List Row) :
    scenesFrom E L seed indexOffset (xs ++ ys) =
      (scenesFrom E L seed indexOffset xs).bind fun rs =>
        (scenesFrom E L seed (indexOffset + xs.length) ys).map (rs ++ ·) := by
  have hshift : (ys.zipIdx xs.length).mapM (fun p : Row × ℕ =>
        sceneOf E L seed (indexOffset + p.2) 0 p.1) =
      scenesFrom E L seed (indexOffset + xs.length) ys := by
    rw [scenesFrom, List.zipIdx_eq_map_add, List.mapM_map]
    congr 1
    funext p
    simp only [Function.comp_apply, Nat.cast_add]
    rw [← Int.add_assoc, Int.add_right_comm]
  rw [scenesFrom, List.zipIdx_append, List.mapM_append, Nat.zero_add, hshift]
  simp only [scenesFrom, Option.bind_eq_bind, Option.pure_def, Option.map_eq_bind]
  rfl

/-- Whether the text of a file begins with a byte order mark. -/
def beginsWithMark (chunk : List Row) : Bool :=
  ((chunk.headD []).headD "").toList.head? = some (Char.ofNat 0xFEFF)

theorem withoutMark_eq_self {chunk : List Row} (h : beginsWithMark chunk = false) :
    withoutMark chunk = chunk := by
  rcases chunk with _ | ⟨_ | ⟨cell, cells⟩, rows⟩
  · rfl
  · rfl
  · have hcell : cell.toList.head? ≠ some (Char.ofNat 0xFEFF) := of_decide_eq_false h
    have htrim : trimPrefix cell.toList [Char.ofNat 0xFEFF] = cell.toList := by
      rw [trimPrefix, if_neg fun htake => hcell ?_]
      have hhead := congrArg List.head? htake
      rw [List.head?_take] at hhead
      simpa using hhead
    simp only [withoutMark, List.modifyHead_cons, htrim, String.ofList_toList]

theorem withoutMark_append {chunk : List Row} (h : chunk ≠ []) (rest : List Row) :
    withoutMark (chunk ++ rest) = withoutMark chunk ++ rest := by
  cases chunk with
  | nil => exact absurd rfl h
  | cons row rows => rfl

/-- The scenes of one chunk more. -/
theorem map_buildChunks_cons (indexOffset : ℤ) (chunk : List Row) (chunks : List (List Row)) :
    (buildChunks E L seed indexOffset (chunk :: chunks)).map
        (List.map SceneRecord.withoutSourceRow) =
      ((buildScenes E L seed indexOffset chunk).map
          (List.map SceneRecord.withoutSourceRow)).bind fun rs =>
        ((buildChunks E L seed (indexOffset + chunk.length) chunks).map
          (List.map SceneRecord.withoutSourceRow)).map (rs ++ ·) := by
  rw [buildChunks]
  cases buildScenes E L seed indexOffset chunk with
  | none => rfl
  | some records =>
    cases buildChunks E L seed (indexOffset + chunk.length) chunks with
    | none => rfl
    | some later => simp

/-- Chunks without marks. -/
theorem buildChunks_eq {indexOffset : ℤ} (hoff : 0 ≤ indexOffset) {chunks : List (List Row)}
    (hne : ∀ c ∈ chunks, c ≠ []) (hmark : ∀ c ∈ chunks, beginsWithMark c = false) :
    (buildChunks E L seed indexOffset chunks).map (List.map SceneRecord.withoutSourceRow) =
      scenesFrom E L seed indexOffset chunks.flatten := by
  induction chunks generalizing indexOffset with
  | nil => rfl
  | cons chunk chunks ih =>
    have hchunk : (buildScenes E L seed indexOffset chunk).map _ = _ :=
      buildScenes_withoutSourceRow indexOffset chunk
    rw [if_neg (not_or.mpr ⟨by omega, hne chunk List.mem_cons_self⟩),
      withoutMark_eq_self (hmark chunk List.mem_cons_self)] at hchunk
    have hnext : 0 ≤ indexOffset + chunk.length := by omega
    have hrest := ih hnext
      (fun c hc => hne c (List.mem_cons_of_mem _ hc))
      (fun c hc => hmark c (List.mem_cons_of_mem _ hc))
    rw [map_buildChunks_cons, List.flatten_cons, scenesFrom_append, hchunk, hrest]

/-- **Appended transactions leave the earlier scenes as they are.** -/
theorem build_prefix {indexOffset : ℤ} {chain later : List Row} (hchain : chain ≠ [])
    {records : List SceneRecord}
    (h : buildScenes E L seed indexOffset (chain ++ later) = some records) :
    buildScenes E L seed indexOffset chain = some (records.take chain.length) := by
  rw [buildScenes_eq] at h ⊢
  split at h
  · cases h
  · rename_i hok
    have hoff : ¬ indexOffset < 0 := fun hlt => hok (.inl hlt)
    rw [withoutMark_append hchain, List.zipIdx_append, List.mapM_append] at h
    obtain ⟨first, hfirst, h⟩ := Option.bind_eq_some_iff.mp h
    obtain ⟨rest, -, h⟩ := Option.bind_eq_some_iff.mp h
    obtain rfl := Option.some.inj h
    have hlen := Fallible.mapM_length hfirst
    rw [List.length_zipIdx, length_withoutMark] at hlen
    rw [if_neg (not_or.mpr ⟨hoff, hchain⟩), hfirst, ← hlen, List.take_left]

/-- **The scenes do not depend on how the file is cut**: chunks of which no later one
begins with a byte order mark give, `source_row` aside, the rows of the whole file, and an
exception where the whole file gives one; and the rows of a file stay as they are when
transactions are appended to it. -/
theorem build_chunks (indexOffset : ℤ) {chunks : List (List Row)} (hsome : chunks ≠ [])
    (hne : ∀ c ∈ chunks, c ≠ []) (hmark : ∀ c ∈ chunks.tail, beginsWithMark c = false) :
    (buildChunks E L seed indexOffset chunks).map (List.map SceneRecord.withoutSourceRow) =
        (buildScenes E L seed indexOffset chunks.flatten).map
          (List.map SceneRecord.withoutSourceRow) ∧
      ∀ chain later records, chain ≠ [] →
        buildScenes E L seed indexOffset (chain ++ later) = some records →
        buildScenes E L seed indexOffset chain = some (records.take chain.length) := by
  refine ⟨?_, fun chain later records hchain h => build_prefix hchain h⟩
  obtain ⟨chunk, chunks, rfl⟩ := List.exists_cons_of_ne_nil hsome
  have hchunk : chunk ≠ [] := hne chunk List.mem_cons_self
  have hflat : chunk ++ chunks.flatten ≠ [] := fun h => hchunk (List.append_eq_nil_iff.mp h).1
  rw [List.flatten_cons, buildScenes_withoutSourceRow]
  by_cases hoff : indexOffset < 0
  · rw [if_pos (.inl hoff), buildChunks, buildScenes, if_pos hoff]
    rfl
  · -- the first chunk may have a mark, which the whole file has too
    have hfirst : (buildScenes E L seed indexOffset chunk).map _ = _ :=
      buildScenes_withoutSourceRow indexOffset chunk
    have hnext : 0 ≤ indexOffset + chunk.length := by omega
    have hrest : (buildChunks E L seed (indexOffset + chunk.length) chunks).map _ = _ :=
      buildChunks_eq hnext (fun c hc => hne c (List.mem_cons_of_mem _ hc)) hmark
    rw [if_neg (not_or.mpr ⟨hoff, hchunk⟩)] at hfirst
    rw [if_neg (not_or.mpr ⟨hoff, hflat⟩), withoutMark_append hchunk, scenesFrom_append,
      length_withoutMark, map_buildChunks_cons, hfirst, hrest]

end Build

/-! ## A mark within the file -/

/-- A row with a first cell of its own. -/
def markedRow (block : String) : Row :=
  [block, "0", "0x1", "0xaaaaaaaaaaaaaaaaaaaaaaaaaaaaaaaaaaaaaaaa",
    "0xbbbbbbbbbbbbbbbbbbbbbbbbbbbbbbbbbbbbbbbb", "", "0", "0", "5",
    "", "", "", "", "", "", "", "", ""]

/-- The messages that are asked for, and their digests. -/
def markedDigests : List ((String × List JsonPart) × ℕ) :=
  [(("profile", [.str "0xaaaaaaaaaaaaaaaaaaaaaaaaaaaaaaaaaaaaaaaa"]),
      76047298734553295819527693057064089369),
    (("profile", [.str "0xbbbbbbbbbbbbbbbbbbbbbbbbbbbbbbbbbbbbbbbb"]),
      39382477369763611578606109919355372047),
    (("site", [.str "0xaaaaaaaaaaaaaaaaaaaaaaaaaaaaaaaaaaaaaaaa"]),
      267890927410229776989711423799161358860),
    (("site", [.str "0xbbbbbbbbbbbbbbbbbbbbbbbbbbbbbbbbbbbbbbbb"]),
      195913152110603645507319246275646776675),
    (("transaction_template", [.int 0, .row (markedRow "1")]),
      171479433916996755941461613144573513124),
    (("transaction_template", [.int 1, .row (markedRow "2")]),
      115472559964936521806524816206217455616),
    (("transaction_template", [.int 1, .row (markedRow "\uFEFF2")]),
      63874495933826311172244051669631339697)]

/-- The digests of these messages, with the seed 7; the accounts are at one place. -/
def markedEnv : SceneEnv where
  digest text :=
    ((markedDigests.find? fun e => stableMessage 7 e.1.1 e.1.2 = text).map (·.2)).getD 0
  lower := id
  distanceText _ _ := "0"
  qualityText _ := "1"
  isFloat text := text = "0.5"

/-- One profile with two templates, and one site. -/
def markedLibrary : SceneLibrary where
  profiles := [⟨"profile_00", "camera"⟩]
  sites := [(1, .num 0, .num 0)]
  links := [((1, 1), (.num 1, "co_located_assumption"))]
  templates := [("profile_00",
    [⟨"profile_00:1", "tcp", ["1", "1", "1", "1"], "0.5", "0"⟩,
      ⟨"profile_00:2", "udp", ["2", "2", "2", "2"], "0.5", "0"⟩])]

/-- What is digested is a JSON text. -/
example : stableMessage 7 "site" [.int 1, .row ["\uFEFF2"]] =
    "[\"real_accounts_iot_scene_v2_1\",7,\"site\",1,[\"\\ufeff2\"]]".toList := by
  decide

/-- The second row begins with a mark. At the front of a chunk the mark is not read, and
the row gets another template. -/
theorem build_chunks_marked :
    ¬ ∀ (E : SceneEnv) (L : SceneLibrary) (seed : ℤ) (chunks : List (List Row)),
      chunks ≠ [] → (∀ c ∈ chunks, c ≠ []) → (buildScenes E L seed 0 chunks.flatten).isSome →
      (buildChunks E L seed 0 chunks).map (List.map SceneRecord.withoutSourceRow) =
        (buildScenes E L seed 0 chunks.flatten).map (List.map SceneRecord.withoutSourceRow) := by
  intro h
  have hbuilt : (buildScenes markedEnv markedLibrary 7 0
      [[markedRow "1"], [markedRow "\uFEFF2"]].flatten).isSome := by
    decide +kernel
  have htemplates := congrArg (Option.map fun rs => rs.map fun r => r.template.templateId)
    (h markedEnv markedLibrary 7 [[markedRow "1"], [markedRow "\uFEFF2"]] (by decide)
      (by decide) hbuilt)
  revert htemplates
  decide +kernel

/-- The same rows without the mark. -/
theorem build_chunks_unmarked :
    (buildChunks markedEnv markedLibrary 7 0 [[markedRow "1"], [markedRow "2"]]).map
        (List.map SceneRecord.withoutSourceRow) =
      (buildScenes markedEnv markedLibrary 7 0 [markedRow "1", markedRow "2"]).map
        (List.map SceneRecord.withoutSourceRow) :=
  (build_chunks 0 (by decide) (by decide) (by decide)).1

end BlockEmulator
