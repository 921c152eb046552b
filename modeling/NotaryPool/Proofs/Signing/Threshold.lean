import NotaryPool.Proofs.Signing.Collecting
import NotaryPool.Proofs.Withdrawal.CreditOrder

/-!
# Signing succeeds exactly at the threshold

The members of a pool run the same round and get the same transactions, each with its own entries.
A transaction can be signed with the collected entries just when each input has as many as required.

## Contents

* `Signing.lacking?`: the first input that lacks entries.
* `WithdrawalTx.sign_exact`: **signing a transaction fails only for lack of entries.**
* `Round.toStatus_answered`: **a member answers for all transactions of a round.**
* `Round.signing_exact`: **the members of a pool sign exactly at the threshold.**
-/

namespace NotaryPool

variable {K : KeyScheme} {P : TxPolicy}

namespace Signing

/-! ## Signing a transaction -/

/-- The first input that lacks entries, and the entries that it has. -/
def lacking? (inputs : List (PoolAddress × InputSignatures)) :
    Option (PoolAddress × InputSignatures) :=
  inputs.find? fun (a, entries) => (present entries).length < a.required.toNat

/-- Signing goes well when no input lacks entries. Else it fails for the first one that does. -/
def Exact (inputs : List (PoolAddress × InputSignatures)) (signed : Except TxSigningError Tx) :
    Prop :=
  match lacking? inputs with
  | none => ∃ tx, signed = .ok tx
  | some (a, entries) =>
    signed = .error (.insufficientSignatures a.required (present entries).length)

theorem lacking?_cons (a : PoolAddress) (entries : InputSignatures)
    (rest : List (PoolAddress × InputSignatures)) :
    lacking? ((a, entries) :: rest)
      = if (present entries).length < a.required.toNat then some (a, entries)
        else lacking? rest := by
  unfold lacking?
  rw [List.find?_cons]
  split
  · rename_i h
    rw [if_pos (of_decide_eq_true h)]
  · rename_i h
    rw [if_neg (of_decide_eq_false h)]

/-- No input lacks entries just when each has as many as required. -/
theorem lacking?_eq_none_iff {inputs : List (PoolAddress × InputSignatures)} :
    lacking? inputs = none ↔ ∀ p ∈ inputs, p.1.required.toNat ≤ (present p.2).length := by
  unfold lacking?
  simp [List.find?_eq_none]

section Exact

variable {inputs : List (PoolAddress × InputSignatures)} {signed : Except TxSigningError Tx}

theorem Exact.error_of_lacking (h : Exact inputs signed) (a : PoolAddress)
    (entries : InputSignatures) (hlacking : lacking? inputs = some (a, entries)) :
    signed = .error (.insufficientSignatures a.required (present entries).length) := by
  unfold Exact at h
  rw [hlacking] at h
  exact h

theorem Exact.ok_iff (h : Exact inputs signed) :
    (∃ tx, signed = .ok tx) ↔ ∀ p ∈ inputs, p.1.required.toNat ≤ (present p.2).length := by
  rw [← lacking?_eq_none_iff]
  constructor
  · rintro ⟨tx, rfl⟩
    cases hlacking : lacking? inputs with
    | none => rfl
    | some p => cases h.error_of_lacking p.1 p.2 hlacking
  · intro hnone
    unfold Exact at h
    rw [hnone] at h
    exact h

end Exact

/-- A signature script in one input leaves the entries aligned. -/
theorem TxAligned.withScript {tx : Tx} {no : Nat} {addresses : List PoolAddress}
    {sigs : TxSignatures} (h : TxAligned K tx no addresses sigs) (index : Nat) (script : Bytes) :
    TxAligned K (tx.withScript index script) no addresses sigs := by
  refine h.imp ?_
  rintro ⟨a, no⟩ entries haligned
  dsimp only
  rw [Tx.sighash_withScript]
  exact haligned

end Signing

namespace WithdrawalTx

open Signing

/-- The inputs from `no` on are signed one after the other, until one lacks entries. -/
theorem signFrom_exact {prevouts : List TxOut} {addresses : List PoolAddress} {sigs : TxSignatures}
    {no : Nat} {tx : Tx} (hproper : ∀ a ∈ addresses, Multisig.Proper a.required a.keys)
    (hcount : tx.inputs.length = prevouts.length)
    (hspent : (prevouts.drop no).map (·.script) = addresses.map PoolAddress.script)
    (haligned : TxAligned K tx no addresses sigs) :
    Exact (addresses.zip sigs) (signFrom K prevouts no (addresses.zip sigs) tx) := by
  induction addresses generalizing no tx sigs with
  | nil => exact ⟨tx, rfl⟩
  | cons a rest ih =>
      unfold TxAligned at haligned
      rw [List.zipIdx_cons] at haligned
      obtain ⟨entries, others, hfirst, hothers, rfl⟩ := List.forall₂_cons_left_iff.mp haligned
      have hprevout : prevouts[no]?.map (·.script) = some a.script := by
        rw [← List.head?_drop, ← List.head?_map, hspent]
        rfl
      have hnext : (prevouts.drop (no + 1)).map (·.script) = rest.map PoolAddress.script := by
        rw [← List.drop_drop, List.map_drop, hspent]
        rfl
      have hsign := signInput_eq (hproper a List.mem_cons_self) hcount hprevout hfirst
      rw [List.zip_cons_cons]
      unfold Exact signFrom
      rw [lacking?_cons, hsign, script_eq]
      by_cases hlacks : (present entries).length < a.required.toNat
      · simp only [if_pos hlacks]
        rfl
      · -- the script put in here is not part of what the inputs behind it sign
        simp only [if_neg hlacks]
        exact ih (fun b hb => hproper b (List.mem_cons_of_mem a hb))
          (by rw [Tx.length_inputs_withScript, hcount]) hnext
          (TxAligned.withScript (show TxAligned K tx (no + 1) rest others from hothers) no _)

/-- **Signing a transaction fails only for lack of entries.** -/
theorem sign_exact {d : Draft} {sigs : TxSignatures}
    (hproper : ∀ c ∈ d.inputs, Multisig.Proper c.address.required c.address.keys)
    (haligned : TxAligned K (ofDraft d).tx 0 (ofDraft d).addresses sigs) :
    Exact ((ofDraft d).addresses.zip sigs) ((ofDraft d).sign K sigs) := by
  have hlength : sigs.length = (ofDraft d).addresses.length := by
    rw [← haligned.length_eq, List.length_zipIdx]
  unfold sign
  rw [if_neg (not_not_intro hlength)]
  apply signFrom_exact _ _ _ haligned
  · intro a ha
    obtain ⟨c, hc, rfl⟩ := List.mem_map.mp ha
    exact hproper c hc
  · show (d.inputs.map _).length = (d.inputs.map _).length
    rw [List.length_map, List.length_map]
  · show ((d.inputs.map PoolCredit.prevout).drop 0).map (·.script)
      = (d.inputs.map (·.address)).map PoolAddress.script
    rw [List.drop_zero, List.map_map, List.map_map]
    rfl

end WithdrawalTx

namespace Round

open Signing

variable {b pool : SeriesBook} {r : Round}

/-! ## The entries of a member -/

/-- Entries for all inputs of a transaction: empty just where the private part is not held, and
aligned with the redeem scripts. -/
def Answering (K : KeyScheme) (pool : SeriesBook) (held : SeriesId → Xpub → Prop)
    (w : WithdrawalTx) (sigs : TxSignatures) : Prop :=
  List.Forall₂ (pool.Answers held) w.addresses sigs ∧ TxAligned K w.tx 0 w.addresses sigs

/-- For each transaction of a status there are a member's entries. -/
def Answered (K : KeyScheme) (pool b : SeriesBook) (s : RoundStatus) : Prop :=
  ∀ id w, s.transactions.find? id = some w →
    ∃ sigs, s.sigs.find? id = some sigs ∧ Answering K pool b.Holds w sigs

/-- The inputs of drafts lie at addresses of the pool. -/
def PoolInputs (K : KeyScheme) (pool : SeriesBook) (finalized : List Draft) : Prop :=
  ∀ d ∈ finalized, ∀ c ∈ d.inputs,
    pool.poolAddress K c.address.series c.address.branch c.address.index = .ok c.address

theorem signAll_answers (hK : K.Lawful) (hb : b.MemberOf K pool) {finalized : List Draft}
    (hinputs : PoolInputs K pool finalized) :
    ∃ signed, signAll K b finalized = .ok signed
      ∧ ∀ p ∈ signed, Answering K pool b.Holds p.1 p.2 := by
  obtain ⟨signed, hsigned⟩ := exists_forall₂ (R := fun (d : Draft) p =>
    (do
      let w := WithdrawalTx.ofDraft d
      return (w, ← Signing.rawSignatures K b w.tx d.inputs)) = Except.ok (ε := RawSigningError) p
    ∧ Answering K pool b.Holds p.1 p.2)
    (show ∀ d ∈ finalized, _ by
      intro d hd
      obtain ⟨sigs, hsigs, hanswers, haligned⟩ := rawSignatures_ok hK
        (show (WithdrawalTx.ofDraft d).tx.inputs.length = d.inputs.length from List.length_map ..)
        fun c hc => hb.derives (hinputs d hd c hc)
      have hpool : List.Forall₂ (pool.Answers b.Holds) (d.inputs.map (·.address)) sigs :=
        hb.bare_eq ▸ hanswers.imp fun _ _ => SeriesBook.Answers.bare
      refine ⟨(WithdrawalTx.ofDraft d, sigs), ?_, hpool, haligned⟩
      simp only [hsigs, Except.ok_bind]
      rfl)
  refine ⟨signed, mapM_eq_ok_iff.mpr (hsigned.imp fun _ _ h => h.1), ?_⟩
  intro p hp
  obtain ⟨d, -, -, hanswers⟩ := exists_of_forall₂ hsigned hp
  exact hanswers

/-- **A member answers for all transactions of a round.** -/
theorem toStatus_answered (hK : K.Lawful) (hb : b.MemberOf K pool)
    (hinputs : PoolInputs K pool r.finalized) (roundId : UInt32) :
    ∃ status, r.toStatus K b roundId = .ok status
      ∧ status.transactions = .ofList (labelled r.finalized) ∧ Answered K pool b status := by
  obtain ⟨signed, hsigned, hanswers⟩ := signAll_answers hK hb hinputs
  have hstatus : r.toStatus K b roundId = .ok ⟨roundId, r.nextChange, r.fees, r.outcomes,
      .ofList (signed.map fun p => (p.1.ntxid, p.2)),
      .ofList (signed.map fun p => (p.1.ntxid, p.1))⟩ := by
    unfold toStatus
    rw [hsigned]
  obtain ⟨_, _, heq⟩ := toStatus_ok hstatus
  refine ⟨_, hstatus, congrArg RoundStatus.transactions heq, ?_⟩
  -- both maps are made from one list, so a key finds the same pair in both
  intro id w hfound
  have htransaction := OrderedMap.find?_ofList_map signed (fun p => p.1.ntxid) (fun p => p.1) id
  have hsigs := OrderedMap.find?_ofList_map signed (fun p => p.1.ntxid) (fun p => p.2) id
  obtain ⟨p, hp, rfl⟩ := Option.map_eq_some_iff.mp (htransaction.symm.trans hfound)
  rw [hp] at hsigs
  exact ⟨p.2, hsigs, hanswers p (List.mem_reverse.mp (List.mem_of_find?_eq_some hp))⟩

/-! ## A round of all members -/

section Members

variable {requests : List OutputRequest} {credits : List PoolCredit} {changeStart : ChangeAddress}
  {start final : Round}

/-- The transactions of a round spend credits that it was given. -/
theorem finalized_spends {network : AddressNetwork}
    (hnew : new network requests credits changeStart = .ok start)
    (hfulfil : start.fulfil K P = .ok final) :
    ∀ d ∈ final.finalized, ∀ c ∈ d.inputs, c ∈ credits := by
  intro d hd c hc
  have hchain : final.creditChain = PoolCredit.sort credits := by
    rw [fulfil_creditChain_eq hfulfil, creditChain_new hnew]
  have hmem : c ∈ final.creditChain := by
    unfold creditChain
    exact List.mem_append_left _ (List.mem_append_left _ (List.mem_flatMap.mpr ⟨d, hd, hc⟩))
  rw [hchain] at hmem
  exact List.mem_mergeSort.mp hmem

theorem run_of_fulfil {roundId : UInt32} {status : RoundStatus}
    (hnew : new b.network requests credits changeStart = .ok start)
    (hfulfil : start.fulfil K P = .ok final) (hstatus : final.toStatus K b roundId = .ok status) :
    run K P b roundId requests credits changeStart = .ok status := by
  unfold run
  simp only [hnew, hfulfil, hstatus]

/-- Merging the entries of a member with those of others adds what it holds. -/
theorem Answering.merge {w : WithdrawalTx} {members : List SeriesBook} {sigs sigs' : TxSignatures}
    (b : SeriesBook) (h : Answering K pool (SeriesBook.HeldBy [b]) w sigs)
    (h' : Answering K pool (SeriesBook.HeldBy members) w sigs') :
    Answering K pool (SeriesBook.HeldBy (b :: members)) w (mergeTx sigs sigs') := by
  refine ⟨forall₂_zipWith (fun a e e' he he' => ?_) h.1 h'.1, h.2.merge h'.2⟩
  exact (answers_merge he he').congr fun id key => (SeriesBook.heldBy_cons b members id key).symm

/-- What is collected for a transaction that all members have is aligned with its redeem scripts, so
signing it is exact. There is one outcome for each transaction, in the same order. -/
theorem signTransactions_exact {finalized : List Draft} {members : List SeriesBook}
    {statuses : List RoundStatus}
    (hproper : ∀ d ∈ finalized, ∀ c ∈ d.inputs,
      Multisig.Proper c.address.required c.address.keys)
    (hstatuses : List.Forall₂ (fun b s => s.transactions = .ofList (labelled finalized)
      ∧ Answered K pool b s) members statuses)
    {status : RoundStatus} (hstatus : status ∈ statuses) :
    List.Forall₂ (fun entry outcome => outcome.1 = entry.1
        ∧ ∃ sigs, (RoundStatus.collect statuses).find? entry.1 = some sigs
          ∧ List.Forall₂ (pool.Answers (SeriesBook.HeldBy members)) entry.2.addresses sigs
          ∧ Exact (entry.2.addresses.zip sigs) outcome.2)
      status.transactions.entries (status.signTransactions K (RoundStatus.collect statuses)) := by
  unfold RoundStatus.signTransactions
  rw [List.forall₂_map_right_iff, List.forall₂_same]
  rintro ⟨id, w⟩ hentry
  obtain ⟨b, -, htransactions, -⟩ := exists_of_forall₂ hstatuses hstatus
  have hfound : status.transactions.find? id = some w := by
    rw [htransactions] at hentry ⊢
    exact OrderedMap.find?_of_mem (OrderedMap.nodup_keys_ofList _) hentry
  -- all members have made their entries for the same transaction
  obtain ⟨sigs, hsigs, hanswers, haligned⟩ := RoundStatus.find?_collect
    (Q := fun members => Answering K pool (SeriesBook.HeldBy members) w)
    (fun b _ _ _ => Answering.merge b) (List.ne_nil_of_mem hstatus) (by
      refine hstatuses.imp fun b s hs => ?_
      obtain ⟨sigs, hsigs, hanswers, haligned⟩ :=
        hs.2 id w (by rw [hs.1, ← htransactions, hfound])
      refine ⟨sigs, hsigs, hanswers.imp fun _ _ h => ?_, haligned⟩
      exact h.congr fun id key => (SeriesBook.heldBy_singleton b id key).symm)
  refine ⟨rfl, sigs, hsigs, hanswers, ?_⟩
  rw [htransactions] at hentry
  obtain ⟨d, hd, hlabelled⟩ := List.mem_map.mp (OrderedMap.mem_ofList hentry)
  cases hlabelled
  show Exact _ (RoundStatus.signTransaction K _ _ _)
  unfold RoundStatus.signTransaction
  rw [hsigs]
  exact WithdrawalTx.sign_exact (hproper d hd) haligned

/-- **The members of a pool sign exactly at the threshold.** When a round ends well whose credits
lie at addresses of the pool, every member gets a status with the same transactions, and with
entries for every input of each: one for each key of the series in the order of the branch, empty
just where the member does not hold the private part. What is collected from all members is empty
just where none of them does. With it each member gets one outcome for each transaction. The
transaction is signed if and only if each of its inputs has as many entries as required. Else the
first input that lacks entries is the reason why not. -/
theorem signing_exact (hK : K.Lawful) {members : List SeriesBook}
    (hmembers : ∀ b ∈ members, b.MemberOf K pool) (roundId : UInt32)
    (hcredits : ∀ c ∈ credits,
      pool.poolAddress K c.address.series c.address.branch c.address.index = .ok c.address)
    (hnew : new pool.network requests credits changeStart = .ok start)
    (hfulfil : start.fulfil K P = .ok final) :
    ∃ statuses, List.Forall₂ (fun b status =>
        run K P b roundId requests credits changeStart = .ok status
          ∧ status.transactions = .ofList (labelled final.finalized)
          ∧ ∀ id w, status.transactions.find? id = some w →
              ∃ sigs, status.sigs.find? id = some sigs
                ∧ List.Forall₂ (pool.Answers b.Holds) w.addresses sigs) members statuses
      ∧ ∀ status ∈ statuses, List.Forall₂
          (fun (entry : Hash256 × WithdrawalTx) (outcome : Hash256 × Except TxSigningError Tx) =>
            outcome.1 = entry.1
              ∧ ∃ sigs, (RoundStatus.collect statuses).find? entry.1 = some sigs
                ∧ List.Forall₂ (pool.Answers (SeriesBook.HeldBy members)) entry.2.addresses sigs
                ∧ ((∃ tx, outcome.2 = .ok tx) ↔ ∀ p ∈ entry.2.addresses.zip sigs,
                    p.1.required.toNat ≤ (present p.2).length)
                ∧ ∀ a entries, lacking? (entry.2.addresses.zip sigs) = some (a, entries) →
                    outcome.2
                      = .error (.insufficientSignatures a.required (present entries).length))
          status.transactions.entries
          (status.signTransactions K (RoundStatus.collect statuses)) := by
  have hinputs : PoolInputs K pool final.finalized := fun d hd c hc =>
    hcredits c (finalized_spends hnew hfulfil d hd c hc)
  -- each member for itself
  obtain ⟨statuses, hstatuses⟩ := exists_forall₂ (R := fun b status =>
    run K P b roundId requests credits changeStart = .ok status
      ∧ status.transactions = .ofList (labelled final.finalized) ∧ Answered K pool b status)
    (show ∀ b ∈ members, _ by
      intro b hb
      obtain ⟨status, hstatus, htransactions, hanswered⟩ :=
        toStatus_answered hK (hmembers b hb) hinputs roundId
      have hnetwork : b.network = pool.network := by
        rw [← (hmembers b hb).bare_eq]
        rfl
      exact ⟨status, run_of_fulfil (hnetwork ▸ hnew) hfulfil hstatus, htransactions, hanswered⟩)
  refine ⟨statuses, hstatuses.imp ?_, ?_⟩
  · rintro b status ⟨hrun, htransactions, hanswered⟩
    refine ⟨hrun, htransactions, fun id w hfound => ?_⟩
    obtain ⟨sigs, hsigs, hanswers, -⟩ := hanswered id w hfound
    exact ⟨sigs, hsigs, hanswers⟩
  · -- all members together
    intro status hstatus
    have hproper : ∀ d ∈ final.finalized, ∀ c ∈ d.inputs,
        Multisig.Proper c.address.required c.address.keys := by
      intro d hd c hc
      obtain ⟨b, hb, -⟩ := exists_of_forall₂ hstatuses hstatus
      obtain ⟨series, ordered, hderives⟩ := (hmembers b hb).derives (hinputs d hd c hc)
      exact hderives.proper
    refine (signTransactions_exact hproper (hstatuses.imp fun _ _ h => h.2) hstatus).imp ?_
    rintro entry outcome ⟨hid, sigs, hsigs, hanswers, hexact⟩
    exact ⟨hid, sigs, hsigs, hanswers, hexact.ok_iff, hexact.error_of_lacking⟩

end Members

/-! ### Two members, one key each

A series of three keys of which two have to sign. Each of two members has one of the private keys,
and nobody has the third one. -/

namespace Shared

/-- The second multiple of the generator. -/
def second : PublicKey where
  x := ⟨0xc6047f9441ed7d6d3045406e95c07cd85c778e4b8cef3ca7abac09b95c709ee5, by decide⟩
  odd := false
  onCurve := by decide +kernel

/-- The third multiple of the generator. -/
def third : PublicKey where
  x := ⟨0xf9308a019258c31049344f85f89d5229b531c845836f99b08601f113bce036f9, by decide⟩
  odd := false
  onCurve := by decide +kernel

/-- The children of the three keys. -/
def children : List PublicKey :=
  [{ x := ⟨0x6c0047046bdc1701884d3fde89878a1c04f9730a1c0a6bcaa6f4654fed3987a9, by decide⟩
     odd := true
     onCurve := by decide +kernel },
    { x := ⟨0x62e5d80f30c313d69a0186b54c4a1ace22cce7376dea84b689f130b786eb29d1, by decide⟩
      odd := false
      onCurve := by decide +kernel },
    { x := ⟨0x313bde2411758369d654e8f79e6f97a1cca14ea294f86ec6bc4b998f7f713509, by decide⟩
      odd := true
      onCurve := by decide +kernel }]

def pub (key : PublicKey) : Xpub := ⟨Sample.xpub.lineage, key⟩

def priv (n : Curve.Scalar) (h : n ≠ 0) : Xpriv := ⟨Sample.xpub.lineage, n, h⟩

def first : Xpriv := priv 1 (by decide)

def other : Xpriv := priv 2 (by decide)

noncomputable def scheme : KeyScheme := .keeping [first, other]

def series (a b : Option Xpriv) : Series :=
  ⟨1, true, 2, [⟨pub Sample.key, a⟩, ⟨pub second, b⟩, ⟨pub third, none⟩]⟩

def book (a b : Option Xpriv) : SeriesBook := ⟨.regtest, fun _ => some (series a b)⟩

def members : List SeriesBook := [book (some first) none, book none (some other)]

def address : PoolAddress :=
  ⟨⟨1⟩, ⟨1⟩, ⟨0⟩, 2, .regtest, [pub Sample.key, pub second, pub third], children⟩

def credits : List PoolCredit := [⟨⟨Vector.replicate 32 1, 0⟩, 41000, some 1, address⟩]

theorem neuter_first : scheme.neuter? first = some (pub Sample.key) := by decide +kernel

theorem neuter_other : scheme.neuter? other = some (pub second) := by decide +kernel

theorem childPublic? {key child : PublicKey} {t : Curve.Scalar} {index : Index}
    (hindex : index.isUnhardened = true)
    (htweak : KeyScheme.childTweak? Sample.xpub.lineage.chainCode key index.val = some t)
    (hchild : key.tweak? t = some child)
    (hagrees : ∀ priv ∈ [first, other], KeyScheme.secp256k1.neuter? priv = some (pub key) →
      (priv.key.tweak? t).bind KeyScheme.secp256k1.publicKey? = some child) :
    childKey scheme (pub key) index = .ok child :=
  childKey_eq_ok_iff.mpr ⟨hindex, KeyScheme.childPublic?_keeping htweak hchild hagrees⟩

theorem childKeys : List.Forall₂ (fun key child => childKey scheme key ⟨0⟩ = .ok child)
    [pub Sample.key, pub second, pub third] children :=
  .cons (childPublic? rfl (t :=
      ⟨0x23f2740ea906f427c10cd03910c510f0c468e703f042a8d06c5b7721f2c15b33, by decide⟩)
    (by decide +kernel) (by decide +kernel) (by decide +kernel))
  (.cons (childPublic? rfl (t :=
      ⟨0x2d69011ee7abefa0c562398c57dbfae4e334a45fbb43a63e8463cdafd026e79d, by decide⟩)
    (by decide +kernel) (by decide +kernel) (by decide +kernel))
  (.cons (childPublic? rfl (t :=
      ⟨0x73502416b160aa79112a3fbf2c01a2caedc23d06f080978678eb386ba77794ed, by decide⟩)
    (by decide +kernel) (by decide +kernel) (by decide +kernel)) .nil))

theorem address_eq :
    (book none none).poolAddress scheme address.series address.branch address.index
      = .ok address := by
  have hderived : PoolAddress.ofKeys scheme ⟨1⟩ 2 [pub Sample.key, pub second, pub third] ⟨1⟩ ⟨0⟩
      .regtest = .ok address :=
    PoolAddress.ofKeys_eq_ok_iff.mpr ⟨_, children, rfl, childKeys, rfl⟩
  exact hderived

theorem wellFormed_series {a b : Option Xpriv} (ha : ∀ k ∈ a, k = first)
    (hb : ∀ k ∈ b, k = other) : (series a b).WellFormed scheme where
  fewest := Nat.le_refl 3
  most := show 3 ≤ 15 by decide
  positive := show (2 : UInt8) ≠ 0 by decide
  enough := show 2 ≤ 3 by decide
  distinct := by
    show [pub Sample.key, pub second, pub third].Nodup
    decide +kernel
  owned := by
    intro slot hslot priv hpriv
    rcases List.mem_cons.mp hslot with rfl | hslot
    · rw [ha priv hpriv]
      exact neuter_first
    · rcases List.mem_cons.mp hslot with rfl | hslot
      · rw [hb priv hpriv]
        exact neuter_other
      · rw [List.mem_singleton.mp hslot] at hpriv
        cases hpriv

theorem memberOf_pool {b : SeriesBook} (hb : b ∈ members) :
    b.MemberOf scheme (book none none) := by
  rcases List.mem_cons.mp hb with rfl | hb
  · refine ⟨rfl, fun _ _ h => ?_⟩
    cases h
    exact wellFormed_series (by simp) (by simp)
  · rw [List.mem_singleton.mp hb]
    refine ⟨rfl, fun _ _ h => ?_⟩
    cases h
    exact wellFormed_series (by simp) (by simp)

def due : DueRequest := ⟨Sample.paying, Sample.script⟩

/-- The round before its first turn. -/
def start : Round := opening [due] credits Sample.change

theorem new_eq : new .regtest ([due].map (·.request)) credits Sample.change = .ok start :=
  new_opening (by decide) (List.forall_mem_singleton.mpr (Sample.script_paying rfl)) (by decide)

/-- The round ends well with one transaction, which spends the credit. -/
theorem fulfil_isOk : ∃ final, start.fulfil scheme Sample.policy = .ok final
    ∧ final.finalized.map (·.inputs) = [credits] := by
  have hok : (start.fulfil scheme Sample.policy).toOption.any (fun final =>
      final.finalized.map (·.inputs) = [credits]) = true := by
    have hprepared : start.prepared = start := prepared_opening (by decide) (by decide)
    rw [fulfil_eq, hprepared]
    decide +kernel
  obtain ⟨final, hfinal, htest⟩ := fulfil_any hok
  exact ⟨final, hfinal, of_decide_eq_true htest⟩

theorem heldBy_members :
    SeriesBook.HeldBy members ⟨1⟩ (pub Sample.key)
      ∧ SeriesBook.HeldBy members ⟨1⟩ (pub second) := by
  constructor
  · exact ⟨_, List.mem_cons_self, series (some first) none, rfl, _, List.mem_cons_self, rfl, rfl⟩
  · exact ⟨_, List.mem_cons_of_mem _ List.mem_cons_self, series none (some other), rfl, _,
      List.mem_cons_of_mem _ List.mem_cons_self, rfl, rfl⟩

/-- Entries for the address are enough when the first two private keys are held. -/
theorem enough_of_answers {held : SeriesId → Xpub → Prop} {entries : InputSignatures}
    (h : (book none none).Answers held address entries) (hkey : held ⟨1⟩ (pub Sample.key))
    (hother : held ⟨1⟩ (pub second)) :
    address.required.toNat ≤ (present entries).length := by
  obtain ⟨found, ordered, hfound, horder, hentries⟩ := h
  obtain rfl : series none none = found := Option.some.inj hfound
  have hordered : branchOrder (series none none).pubs address.branch
      = .ok [pub Sample.key, pub second, pub third] := rfl
  obtain rfl : [pub Sample.key, pub second, pub third] = ordered :=
    Except.ok.inj (hordered.symm.trans horder)
  -- the entry for the third key does not matter
  obtain ⟨e, entries, he, hrest, rfl⟩ := List.forall₂_cons_left_iff.mp hentries
  obtain ⟨f, entries, hf, hlast, rfl⟩ := List.forall₂_cons_left_iff.mp hrest
  have hfirst : e ≠ [] := fun hnone => he.mp hnone hkey
  have hsecond : f ≠ [] := fun hnone => hf.mp hnone hother
  have hpresent : present (e :: f :: entries) = e :: f :: present entries := by
    simp [present, hfirst, hsecond]
  rw [hpresent]
  show 2 ≤ _
  simp

/-- What is collected for the one address is enough. -/
theorem collected_enough {entries : InputSignatures}
    (h : (book none none).Answers (SeriesBook.HeldBy members) address entries) :
    address.required.toNat ≤ (present entries).length :=
  enough_of_answers h heldBy_members.1 heldBy_members.2

end Shared

/-- Two members with one key each sign together: each of them gets the one signed transaction. -/
theorem shared_signing :
    Shared.scheme.Lawful
      ∧ (∀ b ∈ Shared.members, b.MemberOf Shared.scheme (Shared.book none none))
      ∧ ∃ final statuses, new .regtest ([Shared.due].map (·.request)) Shared.credits Sample.change
          = .ok Shared.start
        ∧ Shared.start.fulfil Shared.scheme Sample.policy = .ok final
        ∧ final.finalized.length = 1
        ∧ List.Forall₂ (fun b status => run Shared.scheme Sample.policy b 1
            ([Shared.due].map (·.request)) Shared.credits Sample.change = .ok status)
            Shared.members statuses
        ∧ ∀ status ∈ statuses, ∃ id tx, status.signTransactions Shared.scheme
            (RoundStatus.collect statuses) = [(id, .ok tx)] := by
  obtain ⟨final, hfulfil, hinputs⟩ := Shared.fulfil_isOk
  obtain ⟨statuses, hstatuses, hexact⟩ := signing_exact (KeyScheme.lawful_keeping _)
    (fun _ => Shared.memberOf_pool) 1 (by
      intro c hc
      rw [List.mem_singleton.mp hc]
      exact Shared.address_eq) Shared.new_eq hfulfil
  obtain ⟨d, hfinalized⟩ : ∃ d, final.finalized = [d] :=
    List.length_eq_one_iff.mp (by simpa using congrArg List.length hinputs)
  refine ⟨KeyScheme.lawful_keeping _, fun _ => Shared.memberOf_pool, final, statuses,
    Shared.new_eq, hfulfil, by rw [hfinalized]; rfl, hstatuses.imp fun _ _ h => h.1, ?_⟩
  intro status hstatus
  obtain ⟨b, -, -, htransactions, -⟩ := exists_of_forall₂ hstatuses hstatus
  have hentries : status.transactions.entries = [(d.ntxid, WithdrawalTx.ofDraft d)] := by
    rw [htransactions, hfinalized]
    rfl
  have houtcomes := hexact status hstatus
  rw [hentries] at houtcomes
  obtain ⟨⟨id, signed⟩, rest, ⟨-, sigs, -, hanswers, hiff, -⟩, hrest, houtcomes⟩ :=
    List.forall₂_cons_left_iff.mp houtcomes
  rw [List.forall₂_nil_left_iff.mp hrest] at houtcomes
  -- the one input lies at the one address
  have hspent : d.inputs = Shared.credits := by
    rw [hfinalized] at hinputs
    exact List.singleton_inj.mp hinputs
  obtain ⟨tx, rfl⟩ := hiff.mpr (by
    rintro ⟨a, entries⟩ hp
    have hentries := List.forall₂_zip hanswers hp
    have ha : a ∈ d.inputs.map (·.address) := (List.of_mem_zip hp).1
    rw [hspent] at ha
    obtain rfl := List.mem_singleton.mp ha
    exact Shared.collected_enough hentries)
  exact ⟨id, tx, houtcomes⟩

end Round

end NotaryPool
