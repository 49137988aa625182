import Mathlib.Data.Finmap
import Mathlib.Data.Finset.Basic

/-!
# Transactions, accounts, blocks (`core`) and address placement (`utils`)

The data every other module works on.

* A `*core.Transaction` may be nil, so a list of pointers is a
  `List (Option Transaction)`; dereferencing a nil one is a panic, and functions
  that can panic return `none` for it.
* The state trie and the transaction trie are taken as correct maps: a root is
  the content it commits to (`Accounts`, a finite set of transaction hashes).
  Two roots are equal exactly when their contents are.
* Block hashes are of an abstract type `H`; what computes them is a parameter
  (`HashFns`), `sha256 ∘ gob` in the source.
* `gob` encoding is left out: a block is stored and sent as the value it encodes.
-/

namespace BlockEmulator

/-- `[]byte`. -/
abbrev Bytes : Type := List UInt8

/-- `utils.Address`. -/
abbrev Address : Type := String

/-- `time.Time`, as milliseconds; `0` is the zero time. -/
abbrev Time : Type := ℕ

/-! ## Transactions and accounts -/

/-- `core.Transaction`, without the fields nothing modelled reads. A nil
`*big.Int` value is `none`. -/
structure Transaction where
  /-- the paying account -/
  sender : Address
  /-- the receiving account -/
  recipient : Address
  /-- the amount -/
  value : Option ℤ
  /-- the hash; both phases of a cross-shard transaction carry the same one -/
  txHash : Bytes
  /-- set on the second phase, the one executed in the recipient's shard -/
  relayed : Bool
  /-- set on broker transactions -/
  hasBroker : Bool
  /-- the number of the transaction in the data set -/
  nonce : ℕ
  /-- set on broker transactions that the broker itself sends -/
  senderIsBroker : Bool
  /-- the sender of the raw transaction, of a broker transaction -/
  originalSender : Address
  /-- the recipient of the raw transaction, of a broker transaction -/
  finalRecipient : Address
  /-- the hash of the raw transaction, of a broker transaction -/
  rawTxHash : Bytes
  deriving DecidableEq

/-- `core.NewTransaction`; the hash is given. -/
def newTransaction (sender recipient : Address) (value : ℤ) (nonce : ℕ) (txHash : Bytes) :
    Transaction where
  sender := sender
  recipient := recipient
  value := some value
  txHash := txHash
  relayed := false
  hasBroker := false
  nonce := nonce
  senderIsBroker := false
  originalSender := ""
  finalRecipient := ""
  rawTxHash := []

/-- `core.AccountState`, without the fields nothing reads. -/
structure AccountState where
  /-- the nonce -/
  nonce : ℕ
  /-- the balance -/
  balance : ℤ
  deriving DecidableEq

/-- `AccountState.Deduct`: the balance is left alone when it does not suffice. -/
def AccountState.deduct (s : AccountState) (val : ℤ) : AccountState :=
  if s.balance < val then s else { s with balance := s.balance - val }

/-- `AccountState.Deposit`. -/
def AccountState.deposit (s : AccountState) (value : ℤ) : AccountState :=
  { s with balance := s.balance + value }

/-- The content of a state trie. -/
abbrev Accounts : Type := Finmap fun _ : Address => AccountState

/-- `params.Init_Balance`, what an account with no stored state holds. -/
def initBalance : ℤ := 100000000000000000000000000000000000000000000

/-- The balance of an address: an absent account counts as `initBalance`. -/
def balanceOf (st : Accounts) (a : Address) : ℤ :=
  match st.lookup a with
  | none => initBalance
  | some s => s.balance

theorem balanceOf_insert_self (st : Accounts) (a : Address) (s : AccountState) :
    balanceOf (st.insert a s) a = s.balance := by
  rw [balanceOf, Finmap.lookup_insert]

theorem balanceOf_insert_ne (st : Accounts) {a b : Address} (s : AccountState)
    (h : b ≠ a) : balanceOf (st.insert a s) b = balanceOf st b := by
  rw [balanceOf, balanceOf, Finmap.lookup_insert_of_ne _ h]

/-! ## Blocks -/

/-- `core.BlockHeader`. Roots are the contents they commit to, the Bloom filter
is the set of its bits. -/
structure BlockHeader (H : Type) where
  /-- hash of the parent block -/
  parentBlockHash : H
  /-- the account states after the block -/
  stateRoot : Accounts
  /-- the hashes of the body -/
  txRoot : Finset Bytes
  /-- the Bloom filter over the hashes of the body -/
  bloom : Finset ℕ
  /-- the height -/
  number : ℕ
  /-- the time of the proposal -/
  time : Time
  /-- the node that generated the block -/
  miner : ℕ
  deriving DecidableEq

/-- `core.Block`, with a header. A nil `*core.Block` and one whose header is nil
are both `none` of `Option (Block H)`. -/
structure Block (H : Type) where
  /-- the header -/
  header : BlockHeader H
  /-- the transactions -/
  body : List (Option Transaction)
  /-- the hash the block is stored under -/
  hash : H
  deriving DecidableEq

/-- What the source takes from `crypto/sha256` over `gob`, and the nil hash. -/
structure HashFns (H : Type) where
  /-- `BlockHeader.Hash` -/
  headerHash : BlockHeader H → H
  /-- the nil byte slice, the genesis block's parent hash -/
  nilHash : H
  /-- `sha256.Sum256`, for addresses that are not hexadecimal -/
  sha256 : Bytes → Bytes

/-- Hashes that record all they are made from. -/
inductive FreeHash where
  /-- the nil hash -/
  | nilHash
  /-- the hash of a header -/
  | of (parent : FreeHash) (stateRoot : Accounts) (txRoot : Finset Bytes) (bloom : Finset ℕ)
    (number : ℕ) (time : Time) (miner : ℕ)
  deriving DecidableEq

/-- Hash functions without collisions, for concrete runs. -/
def freeHash : HashFns FreeHash where
  headerHash h :=
    .of h.parentBlockHash h.stateRoot h.txRoot h.bloom h.number h.time h.miner
  nilHash := .nilHash
  sha256 := id

theorem freeHash_injective : Function.Injective freeHash.headerHash := by
  rintro ⟨p, s, t, b, n, c, m⟩ ⟨p', s', t', b', n', c', m'⟩ h
  simp only [freeHash, FreeHash.of.injEq] at h
  obtain ⟨rfl, rfl, rfl, rfl, rfl, rfl, rfl⟩ := h
  rfl

/-! ## Reading a list of pointers -/

/-- Dereference every pointer of a list; `none` is the panic on a nil one. -/
def derefAll {α : Type} : List (Option α) → Option (List α)
  | [] => some []
  | none :: _ => none
  | some x :: xs => (derefAll xs).map (x :: ·)

@[simp] theorem derefAll_map_some {α : Type} (xs : List α) :
    derefAll (xs.map some) = some xs := by
  induction xs with
  | nil => rfl
  | cons x xs ih => rw [List.map_cons, derefAll, ih, Option.map_some]

theorem derefAll_eq_some {α : Type} {ps : List (Option α)} {xs : List α}
    (h : derefAll ps = some xs) : ps = xs.map some := by
  induction ps generalizing xs with
  | nil => obtain rfl := Option.some.inj h; rfl
  | cons p ps ih =>
    rcases p with _ | x
    · cases h
    · rw [derefAll] at h
      obtain ⟨ys, hys, rfl⟩ := Option.map_eq_some_iff.mp h
      rw [ih hys, List.map_cons]

/-! ## Address placement (`utils/utils_partition.go`) -/

/-- `ModBytes`: the big-endian number a byte slice denotes, modulo `mod`. -/
def modBytes (data : Bytes) (mod : ℕ) : ℕ :=
  (data.foldl (fun n b => 256 * n + b.toNat) 0) % mod

/-- The value of a hexadecimal digit. -/
def hexDigit (c : Char) : Option ℕ :=
  if '0' ≤ c ∧ c ≤ '9' then some (c.toNat - '0'.toNat)
  else if 'a' ≤ c ∧ c ≤ 'f' then some (c.toNat - 'a'.toNat + 10)
  else if 'A' ≤ c ∧ c ≤ 'F' then some (c.toNat - 'A'.toNat + 10)
  else none

/-- `strconv.ParseUint(s, 16, 64)` on at most eight characters, which cannot
overflow: an error on the empty string and on anything but a digit. -/
def parseUint16 : List Char → Option ℕ
  | [] => none
  | cs => cs.foldlM (fun n c => (hexDigit c).map (16 * n + ·)) 0

/-- `isHexAddressText`. -/
def isHexAddressText (text : List Char) : Bool :=
  let text := if text.take 2 = ['0', 'x'] ∨ text.take 2 = ['0', 'X'] then text.drop 2 else text
  !text.isEmpty && text.all fun c => (hexDigit c).isSome

variable {H : Type}

/-- `stableTextShard`. -/
def stableTextShard (F : HashFns H) (addr : Address) (shardNum : ℕ) : ℕ :=
  modBytes (F.sha256 addr.toUTF8.toList) shardNum

/-- `Addr2ShardWithShardNum`. -/
def addr2ShardWithShardNum (F : HashFns H) (addr : Address) (shardNum : ℕ) : ℕ :=
  if shardNum = 0 then 0
  else
    let text := addr.toList
    if isHexAddressText text then
      -- the last eight characters, as a number of base 16
      match parseUint16 (text.drop (text.length - 8)) with
      | some num => num % shardNum
      | none => stableTextShard F addr shardNum
    else stableTextShard F addr shardNum

theorem addr2ShardWithShardNum_lt (F : HashFns H) (addr : Address) {shardNum : ℕ}
    (h : 0 < shardNum) : addr2ShardWithShardNum F addr shardNum < shardNum := by
  have hne : shardNum ≠ 0 := by omega
  rw [addr2ShardWithShardNum, if_neg hne]
  dsimp only
  split
  · split
    · exact Nat.mod_lt _ h
    · exact Nat.mod_lt _ h
  · exact Nat.mod_lt _ h

end BlockEmulator
