import BlockEmulator.OfflineAddress

/-!
# Where Go and Python hash an address to the same shard

Where Go reads no number it hashes the whole address. Python first strips spaces, drops a
prefix and keeps the last eight characters; what is left may then be a number after all,
and otherwise only that rest is hashed.

* `addr2ShardWithShardNum_eq` — the number behind Go's shard.
* `addr2shard_eq_emod` — the number behind Python's shard.
* `same_shard_iff` — **the shards are the same for all shard counts** exactly where both
  read the same digits, both hash the same text, or two numbers coincide by chance.
-/

namespace BlockEmulator

variable {H : Type} (F : HashFns H) (decimal : Char → Option ℕ)

/-- The number that a digest of a text denotes. -/
def digestNumber (text : String) : ℕ :=
  (F.sha256 text.toUTF8.toList).foldl (fun n b => 256 * n + b.toNat) 0

/-- The number that `addr2shard` reduces. -/
def pyNumber (addr : Address) : ℤ :=
  (pyInt16 decimal (addressTail addr)).getD (digestNumber F (String.ofList (addressTail addr)))

/-- Whether the digest of a whole address is, by chance, the number that Python goes by:
the one that `int` reads, or the digest of another text. -/
def Address.Coincides (addr : Address) : Prop :=
  match pyInt16 decimal (addressTail addr) with
  | some n => n = digestNumber F addr
  | none => digestNumber F (String.ofList (addressTail addr)) = digestNumber F addr

variable {F decimal} {addr : Address} {shards : ℕ}

/-- Without a prefix and without digits only, Go hashes the whole address. -/
theorem addr2ShardWithShardNum_eq (h : ¬ addr.GoReads) (hs : 0 < shards) :
    addr2ShardWithShardNum F addr shards = digestNumber F addr % shards := by
  rw [addr2ShardWithShardNum, if_neg hs.ne']
  dsimp only
  split
  · rename_i hhex
    -- a prefix with too few digits behind it
    have hp : HasPrefix addr.toList := by
      by_contra hp
      exact h ⟨hhex, fun hp' => absurd hp' hp⟩
    have hlen : addr.toList.length < 10 := by
      by_contra hlen
      exact h ⟨hhex, fun _ => not_lt.mp hlen⟩
    have hnone : parseUint16 (addr.toList.drop (addr.toList.length - 8)) = none := by
      rw [← Option.not_isSome_iff_eq_none, parseUint16_isSome_iff]
      rintro ⟨-, hall⟩
      obtain ⟨x, hx, heq⟩ := hp.eq
      have hmem : x ∈ addr.toList.drop (addr.toList.length - 8) := by
        refine List.mem_of_getElem? (i := 1 - (addr.toList.length - 8)) ?_
        rw [List.getElem?_drop, show addr.toList.length - 8 + (1 - (addr.toList.length - 8)) = 1 by
          omega, heq]
        rfl
      rcases hx with rfl | rfl
      · exact absurd (hall _ hmem) (by decide)
      · exact absurd (hall _ hmem) (by decide)
    rw [hnone]
    rfl
  · rfl

theorem addr2shard_eq_emod (addr : Address) (shards : ℕ) :
    addr2shard F decimal addr shards = (pyNumber F decimal addr % shards).toNat := by
  rw [addr2shard, pyNumber]
  cases pyInt16 decimal (addressTail addr) with
  | none => exact (Int.toNat_natCast _).symm
  | some n => rfl

/-- Two numbers are the same where their remainders are. -/
theorem emod_eq_iff {z : ℤ} {d : ℕ} :
    (∀ shards : ℕ, 0 < shards → (z % shards).toNat = d % shards) ↔ z = d := by
  constructor
  · intro h
    have hmod := h (d + z.natAbs + 1) (Nat.succ_pos _)
    rw [Nat.mod_eq_of_lt (by omega)] at hmod
    rcases le_or_gt 0 z with hz | hz
    · rw [Int.emod_eq_of_lt hz (by omega)] at hmod
      omega
    · -- a negative number leaves one more than `d`
      rw [← Int.add_emod_right, Int.emod_eq_of_lt (by omega) (by omega)] at hmod
      omega
  · rintro rfl shards -
    exact Int.toNat_natCast _

/-- **The shards are the same for all shard counts** exactly where Go reads a number, or
the address is what Python keeps of it and `int` reads nothing, or by chance. -/
theorem same_shard_iff (F : HashFns H) (decimal : Char → Option ℕ) (addr : Address) :
    (∀ shards, 0 < shards →
        addr2shard F decimal addr shards = addr2ShardWithShardNum F addr shards) ↔
      addr.GoReads ∨
      (pyInt16 decimal (addressTail addr) = none ∧ addressTail addr = addr.toList) ∨
      addr.Coincides F decimal := by
  by_cases hgo : addr.GoReads
  · exact iff_of_true (fun shards hs => addr2shard_eq_of_goReads F decimal hgo hs) (.inl hgo)
  · rw [or_iff_right hgo]
    have hnum : (∀ shards, 0 < shards →
        addr2shard F decimal addr shards = addr2ShardWithShardNum F addr shards) ↔
        pyNumber F decimal addr = digestNumber F addr := by
      rw [← emod_eq_iff]
      refine forall₂_congr fun shards hs => ?_
      rw [addr2shard_eq_emod, addr2ShardWithShardNum_eq hgo hs]
    rw [hnum, pyNumber]
    unfold Address.Coincides
    cases hint : pyInt16 decimal (addressTail addr) with
    | some n => simp
    | none =>
      have hsame : addressTail addr = addr.toList →
          digestNumber F (String.ofList (addressTail addr)) = digestNumber F addr := by
        intro htail
        rw [htail, String.ofList_toList]
      simpa using hsame

/-- An object of the IoT data. -/
def iotPeer : Address := "iot_peer:o:syslog|service:any|proto:udp"

/-- SHA-256 of this object and of what Python keeps of it. -/
def iotHash : HashFns FreeHash where
  headerHash := freeHash.headerHash
  nilHash := freeHash.nilHash
  sha256 text :=
    if text = iotPeer.toUTF8.toList then
      [215, 29, 217, 97, 225, 136, 23, 122, 220, 182, 2, 72, 200, 99, 228, 67, 63, 176, 51, 58,
        136, 76, 174, 84, 29, 242, 64, 231, 58, 247, 156, 74]
    else if text = "roto:udp".toUTF8.toList then
      [208, 169, 178, 140, 97, 189, 192, 151, 139, 63, 42, 71, 174, 187, 93, 1, 243, 25, 85, 160,
        162, 237, 80, 63, 59, 82, 20, 120, 91, 4, 179, 12]
    else []

/-- With four shards Go takes it to shard 2, Python to shard 0. -/
theorem iotPeer_shards :
    ¬ ∀ (addr : Address) (shards : ℕ), 0 < shards →
      addr2shard iotHash (fun _ => none) addr shards =
        addr2ShardWithShardNum iotHash addr shards := by
  intro h
  exact absurd (h iotPeer 4 (by decide)) (by decide +kernel)

end BlockEmulator
