import EthereumJs.Handshake

/-!
# Two sessions exchange STATUS

Two sessions of one version, chain id and genesis hash, each freshly built by `new ETH`, each call
`sendStatus` and each receive the frame the other sent. Whichever of its own `sendStatus` and the
delivery comes first, a session ends in `_handleStatus` on the same state (`handshake_orders`), whose
check passes when the fork ids accept each other (`statusCheck_records`); so each session emits exactly
one `status`, carrying the total difficulty, best hash and genesis hash the other sent
(`exchange_one_side`). `status_handshake` gathers this with the invariant of `EthereumJs.Handshake`.

The frame is delivered as the RLP bytes `sendStatus` gave to `_send`: snappy compression, when the
peers use it, is undone before `_handleMessage`. Its length is below `2 ^ 64`, the bound of RLP's
length prefix.
-/

namespace EthereumJs

namespace ETH

variable (js : Coercions)

/-! ### The calls of the exchange -/

theorem handleStatus_of_none {s : ETH} (h : s.status = none ∨ s.peerStatus = none) :
    handleStatus js s = .ok () s := by
  unfold handleStatus
  split
  · rename_i hst hps; rcases h with h | h <;> simp_all
  · rfl

private theorem handleStatus_of_check {s : ETH} {st : List Tree} {ps : Tree} {ev : StatusEvent}
    (hst : s.status = some st) (hps : s.peerStatus = some ps) (h : statusCheck js s st ps = .ok ev) :
    handleStatus js s = .ok () { s with statusTimeout := false, events := s.events ++ [.status ev] } := by
  unfold handleStatus
  split
  · next st' ps' hst' hps' =>
    rw [hst] at hst'; rw [hps] at hps'; cases hst'; cases hps'
    dsimp only
    rw [show statusCheck js { s with statusTimeout := false } st ps = .ok ev from h]
  · simp_all

private theorem statusEvents_handleStatus {s : ETH} {st : List Tree} {ps : Tree} {ev : StatusEvent}
    (hst : s.status = some st) (hps : s.peerStatus = some ps) (he : s.events = [])
    (h : statusCheck js s st ps = .ok ev) : statusEvents (after (handleStatus js s)) = [ev] := by
  rw [handleStatus_of_check js hst hps h]
  simp [after, statusEvents, he]

/-- A first STATUS that decodes and reads as a record is stored, then `_handleStatus` runs and,
if it returns, the STATUS is emitted as `message`. -/
theorem handleMessage_first_status {s : ETH} {data : Bytes} {t : Tree} (hd : Rlp.decode data = .ok t)
    (hp : s.peerStatus = none) (hg : getStatusString js s.version (.ofTree t) = .ok ()) :
    handleMessage js STATUS data s =
      emitMessage STATUS t (handleStatus js { s with peerStatus := some t }) := by
  simp [handleMessage, hd, hp, hg]

private theorem statusEvents_handleStatus_message {s' s : ETH} {code : Nat} {t : Tree}
    (h : s' = { s with events := s.events ++ [.message code t] }) :
    statusEvents (after (handleStatus js s')) = statusEvents (after (handleStatus js s)) := by
  subst h
  have hc : ∀ st ps, statusCheck js
      { s with statusTimeout := false, events := s.events ++ [.message code t] } st ps =
      statusCheck js { s with statusTimeout := false } st ps := fun _ _ => rfl
  unfold handleStatus
  simp only [hc]
  split
  · split <;> simp [after, statusEvents]
  · simp [after, statusEvents]

theorem prepareStatus_ok {o : StatusOpts} {s s' : ETH} {st : List Tree} (h : prepareStatus o s = .ok st s') :
    st = (statusRecord o s ++ if 64 ≤ s.version then [forkId s] else []) ∧
      ∃ lb, s' = { s with status := some st, latestBlock := lb } := by
  rcases prepareStatus_cases o s with ⟨e, h'⟩ | ⟨lb, h'⟩ <;> rw [h'] at h <;> cases h
  exact ⟨rfl, lb, rfl⟩

private theorem prepareStatus_peerStatus {o : StatusOpts} {s s' : ETH} {st : List Tree}
    (h : prepareStatus o s = .ok st s') (p : Option Tree) (es : List EthEvent) :
    prepareStatus o { s with peerStatus := p, events := es } =
      .ok st { s' with peerStatus := p, events := es } := by
  revert h
  unfold prepareStatus raiseLatestBlock
  rcases o.latestBlock with _ | lb <;> dsimp only <;> split_ifs <;> rintro ⟨⟩ <;> rfl

theorem sendStatus_prepared {o : StatusOpts} {s s' : ETH} {st : List Tree} (hs : s.status = none)
    (hp : prepareStatus o s = .ok st s') (hg : getStatusString js s'.version (.arr st) = .ok ()) :
    sendStatus js o s =
      handleStatus js { s' with sent := s'.sent ++ [(STATUS, ⟨Rlp.encode (.list st), snappy s'⟩)] } := by
  simp [sendStatus, hs, hp, sendRecord, hg]

private theorem sendStatus_completed {o : StatusOpts} {s : ETH} (hs : s.status = none)
    (h : completed (sendStatus js o s)) :
    ∃ st s', prepareStatus o s = .ok st s' ∧ getStatusString js s'.version (.arr st) = .ok () := by
  revert h
  unfold sendStatus sendRecord
  rw [hs]
  dsimp only
  split
  · simp [completed]
  · next st s' hp =>
    split
    · simp [completed]
    · next hg => intro; exact ⟨st, s', hp, hg⟩

private theorem sendStatus_fresh {o : StatusOpts} {s s' : ETH} {st : List Tree} (hs : s.status = none)
    (hp : s.peerStatus = none) (hprep : prepareStatus o s = .ok st s')
    (hg : getStatusString js s'.version (.arr st) = .ok ()) :
    after (sendStatus js o s) =
      { s' with sent := s'.sent ++ [(STATUS, ⟨Rlp.encode (.list st), snappy s'⟩)] } := by
  rw [sendStatus_prepared js hs hprep hg, handleStatus_of_none js (.inr ?_)]
  · rfl
  · obtain ⟨-, lb, rfl⟩ := prepareStatus_ok hprep
    exact hp

/-! ### The check on two records -/

private theorem forkId_length (s : ETH) : (JsVal.ofTree (forkId s)).length = .ok (.num 2) := rfl

/-- The records two sessions of one version, chain id and genesis hash send pass `statusCheck`
when the fork id is accepted, and the event carries the peer's total difficulty, best hash and
genesis hash. -/
theorem statusCheck_records {v : Nat} {s sb : ETH} {oa ob : StatusOpts}
    (hfork : 64 ≤ v → validateForkId js s (.ofTree (forkId sb)) = .ok ())
    (hva : s.version = v) (hvb : sb.version = v)
    (hchain : s.peer.common.chainIdBN = sb.peer.common.chainIdBN)
    (hgen : oa.genesisHash = ob.genesisHash) :
    ∃ ev, statusCheck js s (statusRecord oa s ++ if 64 ≤ s.version then [forkId s] else [])
        (.list (statusRecord ob sb ++ if 64 ≤ sb.version then [forkId sb] else [])) = .ok ev ∧
      ev.td = ob.td ∧ ev.bestHash = ob.bestHash ∧ ev.genesisHash = ob.genesisHash := by
  subst hva
  by_cases h64 : 64 ≤ s.version
  · simp [statusCheck, checkField, checkForkId, h64, hvb, statusRecord, JsVal.get, assertEq, bind,
      Except.bind, hchain, hgen, forkId_length, hfork h64, JsVal.toBuffer, strictEq, pure, Except.pure]
  · simp [statusCheck, checkField, checkForkId, h64, hvb, statusRecord, JsVal.get, assertEq, bind,
      Except.bind, hchain, hgen, JsVal.toBuffer, pure, Except.pure]

/-! ### The two orders -/

/-- Delivering the peer's first STATUS and running `sendStatus` commute as far as `status` goes:
both orders emit what `_handleStatus` emits on the session holding both records and the sent
frame. -/
theorem handshake_orders {s s' : ETH} {o : StatusOpts} {st : List Tree} {data : Bytes} {t : Tree}
    (hs : s.status = none) (hp : s.peerStatus = none)
    (hprep : prepareStatus o s = .ok st s') (hg : getStatusString js s'.version (.arr st) = .ok ())
    (hd : Rlp.decode data = .ok t) (hgt : getStatusString js s.version (.ofTree t) = .ok ()) :
    statusEvents (after (handleMessage js STATUS data (after (sendStatus js o s)))) =
      statusEvents (after (handleStatus js
        { s' with peerStatus := some t,
                  sent := s'.sent ++ [(STATUS, ⟨Rlp.encode (.list st), snappy s'⟩)] })) ∧
    statusEvents (after (sendStatus js o (after (handleMessage js STATUS data s)))) =
      statusEvents (after (handleStatus js
        { s' with peerStatus := some t,
                  sent := s'.sent ++ [(STATUS, ⟨Rlp.encode (.list st), snappy s'⟩)] })) := by
  have hp' := prepareStatus_peerStatus hprep (some t) (s.events ++ [.message STATUS t])
  obtain ⟨rfl, lb, rfl⟩ := prepareStatus_ok hprep
  constructor
  · rw [sendStatus_fresh js hs hp hprep hg, handleMessage_first_status js hd ?_ ?_,
      statusEvents_emitMessage]
    all_goals first | rfl | assumption
  · rw [handleMessage_first_status js hd hp hgt,
      handleStatus_of_none js (s := { s with peerStatus := some t }) (.inl hs)]
    have hs' : ({ s with peerStatus := some t, events := s.events ++ [.message STATUS t] } : ETH).status =
        none := hs
    rw [show after (emitMessage STATUS t (.ok () { s with peerStatus := some t })) =
      { s with peerStatus := some t, events := s.events ++ [.message STATUS t] } from rfl,
      sendStatus_prepared js hs' hp' hg]
    exact statusEvents_handleStatus_message js rfl

/-- The exchange seen from one side: whether its own `sendStatus` runs before or after the
delivery of the other side's STATUS, it emits exactly one `status`, with what the other sent. -/
theorem exchange_one_side {v : Nat} {pa pb : Peer} {oa ob : StatusOpts} {f : Frame}
    (hchain : pa.common.chainIdBN = pb.common.chainIdBN) (hgen : oa.genesisHash = ob.genesisHash)
    (ha : completed (sendStatus js oa (init v pa))) (hb : completed (sendStatus js ob (init v pb)))
    (hf : (STATUS, f) ∈ (after (sendStatus js ob (init v pb))).sent) (hlen : f.data.length < 2 ^ 64)
    (hfork : 64 ≤ v →
      validateForkId js (after (sendStatus js oa (init v pa))) (.ofTree (forkId (init v pb))) = .ok ()) :
    ∃ ev, ev.td = ob.td ∧ ev.bestHash = ob.bestHash ∧ ev.genesisHash = ob.genesisHash ∧
      statusEvents (after (handleMessage js STATUS f.data (after (sendStatus js oa (init v pa))))) = [ev] ∧
      statusEvents (after (sendStatus js oa (after (handleMessage js STATUS f.data (init v pa))))) = [ev] := by
  have hsa := init_status v pa
  have hpa := init_peerStatus v pa
  have hea := init_events v pa
  have hsb := init_status v pb
  have hpb := init_peerStatus v pb
  have hsentb := init_sent v pb
  have hva : (init v pa).version = v := init_version v pa
  have hvb : (init v pb).version = v := init_version v pb
  have hchain' : (init v pa).peer.common.chainIdBN = (init v pb).peer.common.chainIdBN := by
    simpa using hchain
  generalize init v pa = a0 at *
  generalize init v pb = b0 at *
  obtain ⟨stA, a1, hpA, hgA⟩ := sendStatus_completed js hsa ha
  obtain ⟨stB, b1, hpB, hgB⟩ := sendStatus_completed js hsb hb
  have hsendA := sendStatus_fresh js hsa hpa hpA hgA
  have hsendB := sendStatus_fresh js hsb hpb hpB hgB
  obtain ⟨hstA, lbA, rfl⟩ := prepareStatus_ok hpA
  obtain ⟨hstB, lbB, rfl⟩ := prepareStatus_ok hpB
  rw [hsendB] at hf
  simp only [hsentb, List.nil_append, List.mem_singleton, Prod.mk.injEq, true_and] at hf
  subst hf
  have hgt : getStatusString js a0.version (.ofTree (.list stB)) = .ok () := by rw [hva, ← hvb]; exact hgB
  obtain ⟨h1, h2⟩ := handshake_orders js hsa hpa hpA hgA (Rlp.decode_encode _ hlen) hgt
  rw [h1, h2]
  rw [hsendA] at hfork
  subst hstA hstB
  obtain ⟨ev, hc, htd, hbest, hgen'⟩ := statusCheck_records js hfork hva hvb hchain' hgen
  exact ⟨ev, htd, hbest, hgen', statusEvents_handleStatus js rfl rfl hea hc,
    statusEvents_handleStatus js rfl rfl hea hc⟩

/-! ### The handshake -/

/-- The STATUS handshake: over every sequence of calls on a session `status` is emitted at most
once, and only by a call after which the two records are set and agree; a STATUS after the first
is refused and changes nothing; and two sessions of one version, chain id and genesis hash whose
`sendStatus` complete and whose fork ids accept each other each emit exactly one `status`, with
what the other sent, in either order of their own `sendStatus` and the delivery. -/
theorem status_handshake (js : Coercions) :
    (∀ v p cs, (statusEvents (run js (init v p) cs)).length ≤ 1) ∧
    (∀ v p cs c, statusEvents (after (call js (run js (init v p) cs) c)) ≠
        statusEvents (run js (init v p) cs) →
      StatusAgrees js (after (call js (run js (init v p) cs) c))) ∧
    (∀ (s : ETH) data, s.peerStatus.isSome →
      ∃ e, handleMessage js STATUS data s = .error e s ∧
        ∀ t, Rlp.decode data = .ok t → e = .assertion "Uncontrolled status message") ∧
    (∀ v pa pb oa ob fa fb,
      pa.common.chainIdBN = pb.common.chainIdBN → oa.genesisHash = ob.genesisHash →
      completed (sendStatus js oa (init v pa)) → completed (sendStatus js ob (init v pb)) →
      (STATUS, fa) ∈ (after (sendStatus js oa (init v pa))).sent →
      (STATUS, fb) ∈ (after (sendStatus js ob (init v pb))).sent →
      fa.data.length < 2 ^ 64 → fb.data.length < 2 ^ 64 →
      (64 ≤ v → validateForkId js (after (sendStatus js oa (init v pa)))
        (.ofTree (forkId (init v pb))) = .ok ()) →
      (64 ≤ v → validateForkId js (after (sendStatus js ob (init v pb)))
        (.ofTree (forkId (init v pa))) = .ok ()) →
      (∃ ev, ev.td = ob.td ∧ ev.bestHash = ob.bestHash ∧ ev.genesisHash = ob.genesisHash ∧
        statusEvents (after (handleMessage js STATUS fb.data (after (sendStatus js oa (init v pa))))) = [ev] ∧
        statusEvents (after (sendStatus js oa (after (handleMessage js STATUS fb.data (init v pa))))) = [ev]) ∧
      (∃ ev, ev.td = oa.td ∧ ev.bestHash = oa.bestHash ∧ ev.genesisHash = oa.genesisHash ∧
        statusEvents (after (handleMessage js STATUS fa.data (after (sendStatus js ob (init v pb))))) = [ev] ∧
        statusEvents (after (sendStatus js ob (after (handleMessage js STATUS fa.data (init v pb))))) = [ev])) :=
  ⟨fun v p cs => (run_good (init_good v p) cs).length_le,
    fun v p cs c h => (run_good (init_good v p) cs).emits_agree c h,
    fun _ data hp => handleMessage_second_status js hp data,
    fun _ _ _ _ _ _ _ hc hg ha hb hfa hfb hla hlb hka hkb =>
      ⟨exchange_one_side js hc hg ha hb hfb hlb hka,
        exchange_one_side js hc.symm hg.symm hb ha hfa hla hkb⟩⟩

/-- A chain with one hardfork, `london`, from block 0 and no next fork; its fork hash is
`0xfc64ec04`. -/
def londonCommon : Common where
  hardfork := "london"
  chainIdBN := 1
  hardforkBlockBN _ := some 0
  forkHash _ := "0xfc64ec04"
  nextHardforkBlockBN _ := none
  hardforkForForkHash h := if h = "0xfc64ec04" then some "london" else none
  hardforkGteHardfork _ _ := true

/-- A runtime whose array coercions are all empty. -/
def emptyCoercions : Coercions := ⟨fun _ => 0, fun _ => [], fun _ => ""⟩

/-- Two eth/66 sessions on that chain, one of whose peers compresses with snappy. -/
theorem status_handshake_london :
    let pa : Peer := ⟨londonCommon, some 5⟩
    let pb : Peer := ⟨londonCommon, some 4⟩
    let oa : StatusOpts := { td := [1], bestHash := [0xaa], genesisHash := [0xd4] }
    let ob : StatusOpts := { td := [2], bestHash := [0xbb], genesisHash := [0xd4] }
    let fa : Frame := ⟨Rlp.encode (.list (statusRecord oa (init 66 pa) ++ [forkId (init 66 pa)])), true⟩
    let fb : Frame := ⟨Rlp.encode (.list (statusRecord ob (init 66 pb) ++ [forkId (init 66 pb)])), false⟩
    (∃ ev, ev.td = ob.td ∧ ev.bestHash = ob.bestHash ∧ ev.genesisHash = ob.genesisHash ∧
      statusEvents (after (handleMessage emptyCoercions STATUS fb.data
        (after (sendStatus emptyCoercions oa (init 66 pa))))) = [ev] ∧
      statusEvents (after (sendStatus emptyCoercions oa
        (after (handleMessage emptyCoercions STATUS fb.data (init 66 pa))))) = [ev]) ∧
    (∃ ev, ev.td = oa.td ∧ ev.bestHash = oa.bestHash ∧ ev.genesisHash = oa.genesisHash ∧
      statusEvents (after (handleMessage emptyCoercions STATUS fa.data
        (after (sendStatus emptyCoercions ob (init 66 pb))))) = [ev] ∧
      statusEvents (after (sendStatus emptyCoercions ob
        (after (handleMessage emptyCoercions STATUS fa.data (init 66 pb))))) = [ev]) :=
  (status_handshake emptyCoercions).2.2.2 66 _ _ _ _ _ _ rfl rfl (by decide) (by decide)
    (List.mem_singleton_self _) (List.mem_singleton_self _) (by decide) (by decide)
    (fun _ => rfl) (fun _ => rfl)

end ETH

end EthereumJs
