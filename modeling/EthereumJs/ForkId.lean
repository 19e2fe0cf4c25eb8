import Mathlib.Data.String.Basic
import EthereumJs.Exchange

/-!
# Fork ids on one chain configuration (EIP-2124)

`@ethereumjs/common` (not in the sources) answers a session's questions about forks from the
chain's configuration: its hardforks in order of activation block, each with its EIP-2124 fork
hash (`ChainConfig`, `ChainConfig.common`). A session sends the fork hash and the next fork of its
own hardfork, and `_validateForkId` checks the peer's against its own and against the chain.

* `sendStatus` checks a given latest block only against the first block of the session's
  hardfork: one at or past the next fork gets through, and `_validateForkId` then finds the peer's
  next fork passed locally and rejects a peer on the very same hardfork of the very same chain
  (`forkId_passed_locally`).
* Within that bound two sessions at any two hardforks of one chain accept each other's fork id
  (`forkIds_accepted`): the checks of `_validateForkId` hold on every such pair
  (`ChainConfig.forkId_checks`).
-/

namespace EthereumJs

/-- Modelled from the spec: a hardfork as the chain files of `@ethereumjs/common` list it. -/
structure HardforkParams where
  name : String
  block : Nat
  /-- The four bytes of its EIP-2124 fork hash: CRC32 of the genesis hash and of the distinct
  activation blocks up to its own. -/
  forkHash : Bytes
  deriving DecidableEq

/-- Modelled from the spec: a chain's scheduled hardforks in order of activation block, under
distinct names. A fork hash covers the genesis and the activation blocks so far, so two hardforks
share one exactly when they activate at the same block. -/
structure ChainConfig where
  hardforks : List HardforkParams
  ordered : hardforks.Pairwise (·.block ≤ ·.block)
  names : (hardforks.map (·.name)).Nodup
  named : ∀ h ∈ hardforks, h.name ≠ ""
  forkHash_eq_iff : ∀ a ∈ hardforks, ∀ b ∈ hardforks, a.forkHash = b.forkHash ↔ a.block = b.block

private theorem drop_two_hex (b : Bytes) : ("0x" ++ hexOf b).drop 2 = hexOf b := by
  rw [String.drop_eq]
  apply String.ext
  simp

/-- The fork hash goes on the wire as bytes and comes back as the same string. -/
@[simp] theorem forkHash_wire (b : Bytes) :
    "0x" ++ hexOf (bytesOfHex (("0x" ++ hexOf b).drop 2)) = "0x" ++ hexOf b := by
  rw [drop_two_hex, bytesOfHex_hexOf]

private theorem forkHashString_inj {a b : Bytes} : "0x" ++ hexOf a = "0x" ++ hexOf b ↔ a = b := by
  refine ⟨fun h => ?_, fun h => h ▸ rfl⟩
  simpa [drop_two_hex] using congrArg (fun s => bytesOfHex (s.drop 2)) h

namespace ChainConfig

variable (cfg : ChainConfig)

/-- `_getHardfork(name)`. -/
def hardforkParams (name : String) : Option HardforkParams := cfg.hardforks.find? (·.name = name)

/-- The first activation block after `b`, as the `reduce` of `nextHardforkBlockBN` finds it. -/
def nextBlockAfter (b : Nat) : Option Nat := (cfg.hardforks.find? (b < ·.block)).map (·.block)

/-- `nextHardforkBlockBN(name)`. -/
def nextHardforkBlock (name : String) : Option Nat :=
  (cfg.hardforkParams name).bind fun h => cfg.nextBlockAfter h.block

/-- `forkHash(name)`, as the string `0x…`. `Common` throws on a name it does not know, which no
session here asks. -/
def forkHashOf (name : String) : String :=
  match cfg.hardforkParams name with
  | some h => "0x" ++ hexOf h.forkHash
  | none => ""

/-- `hardforkForForkHash(hash)`: the last hardfork with this fork hash. -/
def hardforkForForkHash (fh : String) : Option String :=
  (cfg.hardforks.reverse.find? fun h => "0x" ++ hexOf h.forkHash = fh).map (·.name)

/-- The position of a hardfork in the list, as the loop of `hardforkGteHardfork` finds it. -/
def position (name : String) : Option Nat := cfg.hardforks.findIdx? (·.name = name)

/-- `hardforkGteHardfork(a, b)`: `b` is a hardfork of the chain, and `a` comes no earlier. -/
def hardforkGteHardfork (a b : String) : Bool :=
  match cfg.position a, cfg.position b with
  | some i, some j => j ≤ i
  | _, _ => false

/-- The `Common` of a peer on this chain, set to the hardfork `hf`. -/
def common (chainId : Nat) (hf : String) : Common where
  hardfork := hf
  chainIdBN := chainId
  hardforkBlockBN name := (cfg.hardforkParams name).map (·.block)
  forkHash := cfg.forkHashOf
  nextHardforkBlockBN := cfg.nextHardforkBlock
  hardforkForForkHash := cfg.hardforkForForkHash
  hardforkGteHardfork := cfg.hardforkGteHardfork

/-! ### Lookups -/

variable {cfg}

private theorem find?_name {l : List HardforkParams} (hn : (l.map (·.name)).Nodup)
    {h : HardforkParams} (hh : h ∈ l) : l.find? (·.name = h.name) = some h := by
  induction l with
  | nil => cases hh
  | cons x xs ih =>
    rw [List.map_cons, List.nodup_cons] at hn
    rcases List.mem_cons.mp hh with rfl | hx
    · simp
    · have hne : x.name ≠ h.name := fun he => hn.1 (he ▸ List.mem_map_of_mem _ hx)
      simp [List.find?_cons, hne, ih hn.2 hx]

private theorem hardforkParams_of_mem {h : HardforkParams} (hh : h ∈ cfg.hardforks) :
    cfg.hardforkParams h.name = some h :=
  find?_name cfg.names hh

private theorem nextHardforkBlock_of_mem {h : HardforkParams} (hh : h ∈ cfg.hardforks) :
    cfg.nextHardforkBlock h.name = cfg.nextBlockAfter h.block := by
  simp [nextHardforkBlock, hardforkParams_of_mem hh]

private theorem lt_of_nextBlockAfter {b n : Nat} (h : cfg.nextBlockAfter b = some n) : b < n := by
  obtain ⟨x, hx, rfl⟩ := Option.map_eq_some'.mp h
  simpa using List.find?_some hx

private theorem nextBlockAfter_isSome {b : Nat} {z : HardforkParams} (hz : z ∈ cfg.hardforks)
    (hb : b < z.block) : ∃ n, cfg.nextBlockAfter b = some n := by
  have hs : (cfg.hardforks.find? (b < ·.block)).isSome :=
    List.find?_isSome.mpr ⟨z, hz, by simpa using hb⟩
  obtain ⟨x, hx⟩ := Option.isSome_iff_exists.mp hs
  exact ⟨x.block, by simp [nextBlockAfter, hx]⟩

private theorem position_split {pre post : List HardforkParams} {x : HardforkParams}
    (hn : ((pre ++ x :: post).map (·.name)).Nodup) :
    (pre ++ x :: post).findIdx? (·.name = x.name) = some pre.length := by
  have hx : ∀ y ∈ pre, (decide (y.name = x.name)) = false := by
    rw [List.map_append, List.map_cons] at hn
    intro y hy
    simpa using (List.pairwise_append.mp hn).2.2 _ (List.mem_map_of_mem _ hy) _
      (List.mem_cons_self _ _)
  rw [List.findIdx?_append, List.findIdx?_eq_none_iff.mpr hx]
  simp [List.findIdx?_cons]

private theorem position_lt {pre : List HardforkParams} (x : HardforkParams)
    (post : List HardforkParams) {y : HardforkParams} (hy : y ∈ pre) :
    ∃ i, (pre ++ x :: post).findIdx? (·.name = y.name) = some i ∧ i < pre.length := by
  cases hi : pre.findIdx? (·.name = y.name) with
  | none => exact absurd (List.findIdx?_eq_none_iff.mp hi y hy) (by simp)
  | some i =>
    exact ⟨i, by rw [List.findIdx?_append, hi]; rfl, (List.findIdx?_eq_some_iff_getElem.mp hi).1⟩

private theorem hardforkGteHardfork_split {pre post : List HardforkParams} {x y : HardforkParams}
    (hsplit : cfg.hardforks = pre ++ x :: post) (hy : y ∈ pre ∨ y = x) :
    cfg.hardforkGteHardfork x.name y.name = true := by
  have hn := cfg.names
  rw [hsplit] at hn
  unfold hardforkGteHardfork position
  rw [hsplit, position_split hn]
  rcases hy with hy | rfl
  · obtain ⟨i, hi, hlt⟩ := position_lt x post hy
    rw [hi]
    simpa using hlt.le
  · rw [position_split hn]
    simp

private theorem hardforkForForkHash_split {h : HardforkParams} (hh : h ∈ cfg.hardforks) :
    ∃ pre h' post, cfg.hardforks = pre ++ h' :: post ∧ h'.forkHash = h.forkHash ∧
      (∀ x ∈ post, x.forkHash ≠ h.forkHash) ∧
      cfg.hardforkForForkHash ("0x" ++ hexOf h.forkHash) = some h'.name := by
  obtain ⟨h', hfind⟩ := Option.isSome_iff_exists.mp
    (List.find?_isSome.mpr ⟨h, List.mem_reverse.mpr hh, decide_eq_true rfl⟩ :
      (cfg.hardforks.reverse.find? fun x => "0x" ++ hexOf x.forkHash = "0x" ++ hexOf h.forkHash).isSome)
  obtain ⟨hp, as, bs, hrev, has⟩ := List.find?_eq_some.mp hfind
  refine ⟨bs.reverse, h', as.reverse, ?_, forkHashString_inj.mp (by simpa using hp), ?_,
    by simp [hardforkForForkHash, hfind]⟩
  · rw [← List.reverse_reverse cfg.hardforks, hrev]
    simp
  · intro x hx hxe
    simpa [hxe] using has x (List.mem_reverse.mp hx)

/-- EIP-2124 on one chain: what `_validateForkId` asks of a session at `h₁`, whose latest block is
below `h₁`'s next fork, about the fork id of a session at `h₂`. The peer's next fork has not
passed locally when the fork hashes agree, and its fork hash names a hardfork that comes no
earlier than `h₁` or whose next fork is the peer's. -/
theorem forkId_checks {h₁ h₂ : HardforkParams} (h₁mem : h₁ ∈ cfg.hardforks)
    (h₂mem : h₂ ∈ cfg.hardforks) {L : Nat} (hL : ∀ n, cfg.nextBlockAfter h₁.block = some n → L < n) :
    ¬ (h₁.forkHash = h₂.forkHash ∧ (cfg.nextBlockAfter h₂.block).getD 0 ≠ 0 ∧
        (cfg.nextBlockAfter h₂.block).getD 0 ≤ L) ∧
    ∃ name, cfg.hardforkForForkHash ("0x" ++ hexOf h₂.forkHash) = some name ∧
      (cfg.hardforkGteHardfork name h₁.name = true ∨
        cfg.nextHardforkBlock name = some ((cfg.nextBlockAfter h₂.block).getD 0)) := by
  refine ⟨fun ⟨heq, hne, hle⟩ => ?_, ?_⟩
  · have hb := (cfg.forkHash_eq_iff _ h₁mem _ h₂mem).mp heq
    cases hn : cfg.nextBlockAfter h₂.block with
    | none => simp [hn] at hne
    | some n =>
      have := hL n (hb ▸ hn)
      simp only [hn, Option.getD_some] at hle
      omega
  · obtain ⟨pre, h', post, hsplit, hfh, hpost, hfor⟩ := cfg.hardforkForForkHash_split h₂mem
    have h'mem : h' ∈ cfg.hardforks := hsplit ▸ List.mem_append_right _ (List.mem_cons_self _ _)
    have hb' : h'.block = h₂.block := (cfg.forkHash_eq_iff _ h'mem _ h₂mem).mp hfh
    refine ⟨h'.name, hfor, ?_⟩
    have hmem : h₁ ∈ pre ++ h' :: post := hsplit ▸ h₁mem
    simp only [List.mem_append, List.mem_cons] at hmem
    rcases hmem with hpre | rfl | hpost₁
    · exact .inl (cfg.hardforkGteHardfork_split hsplit (.inl hpre))
    · exact .inl (cfg.hardforkGteHardfork_split hsplit (.inr rfl))
    · -- `h₁` comes after `h'` at a later block: `h'` has a next fork, the peer's
      have hord := cfg.ordered
      rw [hsplit, List.pairwise_append, List.pairwise_cons] at hord
      have hle : h'.block ≤ h₁.block := hord.2.1.1 h₁ hpost₁
      have hne : h'.block ≠ h₁.block := fun he =>
        hpost h₁ hpost₁ ((cfg.forkHash_eq_iff _ h₁mem _ h₂mem).mpr (he ▸ hb'))
      obtain ⟨n, hn⟩ := cfg.nextBlockAfter_isSome h₁mem (show h'.block < h₁.block by omega)
      right
      rw [cfg.nextHardforkBlock_of_mem h'mem, hn, ← hb', hn]
      rfl

end ChainConfig

namespace ETH

variable (js : Coercions)

/-! ### Sessions on a chain configuration -/

private theorem init_common {cfg : ChainConfig} {h : HardforkParams} (hh : h ∈ cfg.hardforks)
    (chainId : Nat) (hello : Option Nat) {v : Nat} (hv : 64 ≤ v) :
    init v ⟨cfg.common chainId h.name, hello⟩ =
      { version := v, peer := ⟨cfg.common chainId h.name, hello⟩, status := none,
        peerStatus := none, statusTimeout := true, hardfork := h.name, latestBlock := h.block,
        forkHash := "0x" ++ hexOf h.forkHash,
        nextForkBlock := (cfg.nextBlockAfter h.block).getD 0, events := [], sent := [] } := by
  simp [init, ChainConfig.common, hv, cfg.named h hh, ChainConfig.forkHashOf,
    ChainConfig.hardforkParams_of_mem hh, ChainConfig.nextHardforkBlock_of_mem hh]

/-- This side's record reads as a STATUS: its fields are `Buffer`s, its fork id a list of two. -/
theorem getStatusString_record (o : StatusOpts) (s : ETH) :
    getStatusString js s.version
      (.arr (statusRecord o s ++ if 64 ≤ s.version then [forkId s] else [])) = .ok () := by
  by_cases hv : 64 ≤ s.version <;>
    simp [getStatusString, statusRecord, forkId, hv, JsVal.get, JsVal.length, JsVal.toHex,
      JsVal.truthy, bind, Except.bind, pure, Except.pure]

private theorem sendStatus_of_prepared {o : StatusOpts} {s s' : ETH} {st : List Tree}
    (hs : s.status = none) (hp : s.peerStatus = none) (hprep : prepareStatus o s = .ok st s') :
    sendStatus js o s =
      .ok () { s' with sent := s'.sent ++ [(STATUS, ⟨Rlp.encode (.list st), snappy s'⟩)] } := by
  obtain ⟨rfl, lb, rfl⟩ := prepareStatus_ok hprep
  rw [sendStatus_prepared js hs hprep (getStatusString_record js o s),
    handleStatus_of_none js (.inr ?_)]
  exact hp

private theorem prepareStatus_raised {o : StatusOpts} {s : ETH} (hv : 64 ≤ s.version) {lb : Nat}
    (hlb : o.latestBlock = some lb) (h0 : lb ≠ 0) (hle : s.latestBlock ≤ lb) :
    prepareStatus o s = .ok (statusRecord o s ++ [forkId s])
      { s with status := some (statusRecord o s ++ [forkId s]), latestBlock := lb } := by
  simp [prepareStatus, raiseLatestBlock, hv, hlb, h0, Nat.not_lt.mpr hle, forkId]

theorem prepareStatus_of_none {o : StatusOpts} {s : ETH} (hlb : o.latestBlock = none) :
    prepareStatus o s = .ok (statusRecord o s ++ if 64 ≤ s.version then [forkId s] else [])
      { s with status := some (statusRecord o s ++ if 64 ≤ s.version then [forkId s] else []) } := by
  by_cases hv : 64 ≤ s.version <;> simp [prepareStatus, raiseLatestBlock, hv, hlb, forkId]

/-! ### Sessions at two hardforks of one chain -/

private theorem fromBytesBE_nextFork (n : Nat) :
    fromBytesBE (if n = 0 then [] else toArrayLike n) = n := by
  split <;> simp_all

private theorem handleStatus_keeps (s : ETH) :
    (after (handleStatus js s)).peer = s.peer ∧ (after (handleStatus js s)).forkHash = s.forkHash ∧
      (after (handleStatus js s)).hardfork = s.hardfork ∧
      (after (handleStatus js s)).latestBlock = s.latestBlock := by
  rcases handleStatus_cases js s with ⟨b, h⟩ | ⟨_, _, ev, -, -, -, h⟩ <;> rw [h] <;>
    exact ⟨rfl, rfl, rfl, rfl⟩

private theorem raiseLatestBlock_latestBlock {o : StatusOpts} {s s' : ETH} (h : raiseLatestBlock o s = .ok s') :
    s'.latestBlock = s.latestBlock ∨ o.latestBlock = some s'.latestBlock := by
  unfold raiseLatestBlock at h
  cases hlb : o.latestBlock with
  | none => rw [hlb] at h; cases h; exact .inl rfl
  | some lb =>
    rw [hlb] at h
    dsimp only at h
    split at h
    · cases h; exact .inl rfl
    · split at h
      · cases h
      · cases h; exact .inr rfl

private theorem prepareStatus_latestBlock {o : StatusOpts} {s s' : ETH} {st : List Tree}
    (h : prepareStatus o s = .ok st s') :
    s'.latestBlock = s.latestBlock ∨ o.latestBlock = some s'.latestBlock := by
  unfold prepareStatus at h
  dsimp only at h
  split at h
  · split at h
    · cases h
    · next s₁ hr =>
      cases h
      exact (raiseLatestBlock_latestBlock hr :)
  · cases h; exact .inl rfl

private theorem sendStatus_keeps (o : StatusOpts) (s : ETH) :
    (after (sendStatus js o s)).peer = s.peer ∧ (after (sendStatus js o s)).forkHash = s.forkHash ∧
      (after (sendStatus js o s)).hardfork = s.hardfork ∧
      ((after (sendStatus js o s)).latestBlock = s.latestBlock ∨
        o.latestBlock = some (after (sendStatus js o s)).latestBlock) := by
  unfold sendStatus
  split
  · exact ⟨rfl, rfl, rfl, .inl rfl⟩
  · split
    · next e s' h =>
      rcases prepareStatus_cases o s with ⟨e', h'⟩ | ⟨lb, h'⟩ <;> rw [h'] at h <;> cases h
      exact ⟨rfl, rfl, rfl, .inl rfl⟩
    · next st s' h =>
      have hl := prepareStatus_latestBlock h
      obtain ⟨-, lb, rfl⟩ := prepareStatus_ok h
      unfold sendRecord
      split
      · exact ⟨rfl, rfl, rfl, hl⟩
      · rw [(handleStatus_keeps js _).1, (handleStatus_keeps js _).2.1,
          (handleStatus_keeps js _).2.2.1, (handleStatus_keeps js _).2.2.2]
        exact ⟨rfl, rfl, rfl, hl⟩

/-- A session whose `Common`, fork hash and hardfork are those of `h₁`, and whose latest block is
below `h₁`'s next fork, accepts the fork id of a session at `h₂` of the same chain. -/
theorem validateForkId_accepts {cfg : ChainConfig} {chainId : Nat} {h₁ h₂ : HardforkParams}
    (h₁mem : h₁ ∈ cfg.hardforks) (h₂mem : h₂ ∈ cfg.hardforks) {s : ETH}
    (hc : s.peer.common = cfg.common chainId h₁.name) (hf : s.forkHash = "0x" ++ hexOf h₁.forkHash)
    (hh : s.hardfork = h₁.name) (hl : ∀ n, cfg.nextBlockAfter h₁.block = some n → s.latestBlock < n)
    {v : Nat} (hv : 64 ≤ v) (hello : Option Nat) :
    validateForkId js s (.ofTree (forkId (init v ⟨cfg.common chainId h₂.name, hello⟩))) = .ok () := by
  obtain ⟨hpass, name, hname, hnext⟩ := cfg.forkId_checks h₁mem h₂mem hl
  rw [init_common h₂mem chainId hello hv]
  rcases hnext with h | h <;>
    simp [validateForkId, forkId, JsVal.get, JsVal.toHex, JsVal.toBN, fromBytesBE_nextFork, hc, hf, hh,
      forkHashString_inj, ChainConfig.common, hpass, hname, h, bind, Except.bind, pure, Except.pure]

end ETH

open ETH

/-- Two sessions on one chain, both set to a hardfork `h` that has a next fork `n`: the first is
given a latest block at or past `n`, the second none. Both `sendStatus` calls complete, and the
first session rejects the fork id the second sends, although both run the same configuration at
the same hardfork. -/
theorem forkId_passed_locally (js : Coercions) (cfg : ChainConfig) (chainId : Nat)
    {h : HardforkParams} (hh : h ∈ cfg.hardforks) {n : Nat} (hn : cfg.nextHardforkBlock h.name = some n)
    {va vb : Nat} (hva : 64 ≤ va) (hvb : 64 ≤ vb) (ha hb : Option Nat) {oa ob : StatusOpts}
    {lb : Nat} (hlb : oa.latestBlock = some lb) (hle : n ≤ lb) (hob : ob.latestBlock = none) :
    completed (sendStatus js oa (init va ⟨cfg.common chainId h.name, ha⟩)) ∧
    completed (sendStatus js ob (init vb ⟨cfg.common chainId h.name, hb⟩)) ∧
    validateForkId js (after (sendStatus js oa (init va ⟨cfg.common chainId h.name, ha⟩)))
      (.ofTree (forkId (init vb ⟨cfg.common chainId h.name, hb⟩))) =
      .error (.assertion "Remote is advertising a future fork that passed locally") := by
  rw [ChainConfig.nextHardforkBlock_of_mem hh] at hn
  have hlt := ChainConfig.lt_of_nextBlockAfter hn
  rw [init_common hh chainId ha hva, init_common hh chainId hb hvb]
  rw [sendStatus_of_prepared js rfl rfl
      (prepareStatus_raised hva hlb (by omega) (show h.block ≤ lb by omega)),
    sendStatus_of_prepared js rfl rfl (prepareStatus_of_none hob)]
  refine ⟨rfl, rfl, ?_⟩
  simp [validateForkId, forkId, hn, JsVal.get, JsVal.toHex, JsVal.toBN, bind, Except.bind,
    pure, Except.pure, after, show n ≠ 0 by omega, hle, throw, throwThe, MonadExceptOf.throw]

/-- The first two hardforks of mainnet, with their EIP-2124 fork hashes. -/
def mainnetStart : ChainConfig where
  hardforks :=
    [⟨"chainstart", 0, [0xfc, 0x64, 0xec, 0x04]⟩, ⟨"homestead", 1150000, [0x97, 0xc2, 0xc3, 0x4c]⟩]
  ordered := by decide
  names := by decide
  named := by decide
  forkHash_eq_iff := by decide

/-- Two eth/66 sessions on mainnet at `chainstart`, the first told that the chain has reached
block 1 150 000, where `homestead` begins. -/
theorem forkId_passed_locally_mainnet :
    completed (sendStatus emptyCoercions
      { td := [1], bestHash := [0xaa], latestBlock := some 1150000, genesisHash := [0xd4] }
      (init 66 ⟨mainnetStart.common 1 "chainstart", none⟩)) ∧
    completed (sendStatus emptyCoercions { td := [1], bestHash := [0xbb], genesisHash := [0xd4] }
      (init 66 ⟨mainnetStart.common 1 "chainstart", none⟩)) ∧
    validateForkId emptyCoercions (after (sendStatus emptyCoercions
        { td := [1], bestHash := [0xaa], latestBlock := some 1150000, genesisHash := [0xd4] }
        (init 66 ⟨mainnetStart.common 1 "chainstart", none⟩)))
      (.ofTree (forkId (init 66 ⟨mainnetStart.common 1 "chainstart", none⟩))) =
      .error (.assertion "Remote is advertising a future fork that passed locally") :=
  forkId_passed_locally emptyCoercions mainnetStart 1 (h := ⟨"chainstart", 0, [0xfc, 0x64, 0xec, 0x04]⟩)
    (by decide) (n := 1150000) (by decide) (by decide) (by decide) none none rfl (le_refl _) rfl

/-- One side of two sessions on one chain: a session at `h₁`, given no latest block or one below
`h₁`'s next fork, accepts after its `sendStatus` the fork id of a session at `h₂`. -/
theorem sendStatus_accepts (js : Coercions) {cfg : ChainConfig} {chainId : Nat}
    {h₁ h₂ : HardforkParams} (h₁mem : h₁ ∈ cfg.hardforks) (h₂mem : h₂ ∈ cfg.hardforks) {va vb : Nat}
    (hva : 64 ≤ va) (hvb : 64 ≤ vb) (ha hb : Option Nat) (oa : StatusOpts)
    (hoa : ∀ lb n, oa.latestBlock = some lb → cfg.nextHardforkBlock h₁.name = some n → lb < n) :
    validateForkId js (after (sendStatus js oa (init va ⟨cfg.common chainId h₁.name, ha⟩)))
      (.ofTree (forkId (init vb ⟨cfg.common chainId h₂.name, hb⟩))) = .ok () := by
  have e := init_common h₁mem chainId ha hva
  obtain ⟨hp, hf, hh, hl⟩ := sendStatus_keeps js oa (init va ⟨cfg.common chainId h₁.name, ha⟩)
  refine validateForkId_accepts js h₁mem h₂mem (by rw [hp, e]) (by rw [hf, e]) (by rw [hh, e])
    (fun n hn => ?_) hvb hb
  rcases hl with hl | hl
  · rw [hl, e]
    exact ChainConfig.lt_of_nextBlockAfter hn
  · exact hoa _ n hl (by rw [ChainConfig.nextHardforkBlock_of_mem h₁mem, hn])

/-- Two sessions on one chain configuration, at any two of its hardforks, each given no latest
block or one below the next fork of its own hardfork, accept each other's fork id after
`sendStatus`. -/
theorem forkIds_accepted (js : Coercions) (cfg : ChainConfig) (chainId : Nat)
    {h₁ h₂ : HardforkParams} (h₁mem : h₁ ∈ cfg.hardforks) (h₂mem : h₂ ∈ cfg.hardforks)
    {va vb : Nat} (hva : 64 ≤ va) (hvb : 64 ≤ vb) (ha hb : Option Nat) (oa ob : StatusOpts)
    (hoa : ∀ lb n, oa.latestBlock = some lb → cfg.nextHardforkBlock h₁.name = some n → lb < n)
    (hob : ∀ lb n, ob.latestBlock = some lb → cfg.nextHardforkBlock h₂.name = some n → lb < n) :
    validateForkId js (after (sendStatus js oa (init va ⟨cfg.common chainId h₁.name, ha⟩)))
        (.ofTree (forkId (init vb ⟨cfg.common chainId h₂.name, hb⟩))) = .ok () ∧
      validateForkId js (after (sendStatus js ob (init vb ⟨cfg.common chainId h₂.name, hb⟩)))
        (.ofTree (forkId (init va ⟨cfg.common chainId h₁.name, ha⟩))) = .ok () :=
  ⟨sendStatus_accepts js h₁mem h₂mem hva hvb ha hb oa hoa,
    sendStatus_accepts js h₂mem h₁mem hvb hva hb ha ob hob⟩

/-- A session on mainnet at `chainstart`, at block 1 149 999, and one at `homestead`, the last
hardfork of the list, at block 2 000 000. -/
theorem forkIds_accepted_mainnet :
    validateForkId emptyCoercions (after (sendStatus emptyCoercions
        { td := [1], bestHash := [0xaa], latestBlock := some 1149999, genesisHash := [0xd4] }
        (init 66 ⟨mainnetStart.common 1 "chainstart", none⟩)))
      (.ofTree (forkId (init 66 ⟨mainnetStart.common 1 "homestead", none⟩))) = .ok () ∧
    validateForkId emptyCoercions (after (sendStatus emptyCoercions
        { td := [2], bestHash := [0xbb], latestBlock := some 2000000, genesisHash := [0xd4] }
        (init 66 ⟨mainnetStart.common 1 "homestead", none⟩)))
      (.ofTree (forkId (init 66 ⟨mainnetStart.common 1 "chainstart", none⟩))) = .ok () :=
  forkIds_accepted emptyCoercions mainnetStart 1
    (show ⟨"chainstart", 0, [0xfc, 0x64, 0xec, 0x04]⟩ ∈ mainnetStart.hardforks by decide)
    (show ⟨"homestead", 1150000, [0x97, 0xc2, 0xc3, 0x4c]⟩ ∈ mainnetStart.hardforks by decide)
    (by decide) (by decide) none none _ _
    (fun lb n hlb hn => by
      rw [show mainnetStart.nextHardforkBlock "chainstart" = some 1150000 by decide] at hn
      cases hlb; cases hn; decide)
    (fun _ n _ hn => by
      rw [show mainnetStart.nextHardforkBlock "homestead" = none by decide] at hn
      cases hn)

end EthereumJs
