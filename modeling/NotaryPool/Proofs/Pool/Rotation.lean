import NotaryPool.Proofs.Pool.Balance
import NotaryPool.Proofs.Series.Succession

/-!
# Each change output goes to an address of its own

A round moves on to the next change address each time that it closes a transaction with change, and
only then. So the change outputs of a round go to the addresses that follow the one it begins with,
in their order and without a gap, and the next round goes on behind them.

## Contents

* `Round.changes`: the change outputs of transactions, in their order.
* `Round.Rotated`, `Round.Finish.rotated`: where the change outputs of a round go.
* `Round.change_rotates`: **change addresses rotate once for each change output.**
-/

namespace NotaryPool

variable {K : KeyScheme} {P : TxPolicy}

namespace Round

variable {r r' : Round} {changeStart : ChangeAddress} {n : Nat}

/-- The change outputs of transactions, in their order. -/
def changes (finalized : List Draft) : List TxOut :=
  finalized.filterMap fun draft => (WithdrawalTx.ofDraft draft).change?

theorem changes_snoc (finalized : List Draft) (draft : Draft) :
    changes (finalized ++ [draft]) = changes finalized ++ draft.change.toList := by
  unfold changes
  rw [List.filterMap_append, List.filterMap_cons, WithdrawalTx.change?_ofDraft]
  cases draft.change <;> rfl

/-- The change outputs of a round go to the addresses in succession to the one that it has begun
with, and the next one would go to the next address. -/
structure Rotated (K : KeyScheme) (changeStart : ChangeAddress) (r : Round) : Prop where
  paid : ∀ k out, (changes r.finalized)[k]? = some out →
    ∃ a, changeStart.advance K k = .ok a ∧ out.script = a.script
  next : changeStart.advance K (changes r.finalized).length = .ok r.nextChange

/-- One more change output, for the address whose turn it is, and the turn goes to the next one. -/
theorem Rotated.pay {out : TxOut} (hr : r.Rotated K changeStart)
    (hchanges : changes r'.finalized = changes r.finalized ++ [out])
    (hscript : out.script = r.nextChange.script)
    (hnext : r.nextChange.next K = .ok r'.nextChange) : r'.Rotated K changeStart := by
  constructor
  · intro k out' hk
    rw [hchanges, List.getElem?_append] at hk
    split at hk
    · exact hr.paid k out' hk
    · -- the new output is the only one behind the others
      rename_i hbehind
      obtain ⟨hlast, hsame⟩ := List.getElem?_eq_some_iff.mp hk
      rw [List.length_singleton] at hlast
      have hk' : k = (changes r.finalized).length := by omega
      rw [List.getElem_singleton] at hsame
      rw [hk', ← hsame]
      exact ⟨r.nextChange, hr.next, hscript⟩
  · rw [hchanges, List.length_append, List.length_singleton]
    unfold ChangeAddress.advance
    rw [hr.next]
    exact hnext

/-- No other change output, and the turn stays. -/
theorem Rotated.keep (hr : r.Rotated K changeStart)
    (hchanges : changes r'.finalized = changes r.finalized)
    (hnext : r'.nextChange = r.nextChange) : r'.Rotated K changeStart := by
  constructor
  · rw [hchanges]
    exact hr.paid
  · rw [hchanges, hnext]
    exact hr.next

/-- A closed draft either has change for the given script, and then the round moves on, or has none,
and then it does not. -/
theorem change_cases {draft : Draft} {next : ChangeAddress} (hopen : r.current.change = none)
    (hchange : r.current.addChange P r.nextChange.script = .ok draft)
    (hnext : advanceChange K draft { r with current := .empty }
      = .ok { r with current := .empty, nextChange := next }) :
    (∃ out, draft.change = some out ∧ out.script = r.nextChange.script
        ∧ r.nextChange.next K = .ok next)
      ∨ draft.change = none ∧ next = r.nextChange := by
  unfold advanceChange at hnext
  rcases Draft.addChange_ok hchange with ⟨-, rfl⟩ | ⟨-, rfl⟩
  · left
    refine ⟨_, rfl, rfl, ?_⟩
    rw [Option.isSome_some, if_pos rfl] at hnext
    split at hnext
    · rename_i following hfollowing
      cases hnext
      exact hfollowing
    · cases hnext
  · right
    refine ⟨hopen, ?_⟩
    dsimp only at hnext
    rw [hopen, if_neg (by simp)] at hnext
    cases hnext
    rfl

/-- **Closing a transaction keeps the rotation.** -/
theorem Finish.rotated (h : Finish K P r r') (hopen : r.current.change = none)
    (hr : r.Rotated K changeStart) : r'.Rotated K changeStart := by
  cases h with
  | idle hpayments => exact hr
  | @closed draft next hpayments hchange hnext hnoted =>
      rcases change_cases hopen hchange hnext with ⟨out, hout, hscript, hfollowing⟩ | ⟨hnone, rfl⟩
      · refine hr.pay ?_ hscript hfollowing
        dsimp only
        rw [changes_snoc, hout]
        rfl
      · refine hr.keep ?_ rfl
        dsimp only
        rw [changes_snoc, hnone]
        exact List.append_nil _

/-- **A turn keeps the rotation.** -/
theorem Turn.rotated {kind : TurnKind} (h : Turn K P r kind r') (hopen : r.current.IsOpen)
    (hr : r.Rotated K changeStart) : r'.Rotated K changeStart := by
  cases h with
  | paid hserves hsmall hfunded => exact hr.keep rfl rfl
  | cut hserves hsmall hunfunded hamount hpositive => exact hr.keep rfl rfl
  | removed hserves hsmall hunfunded hnothing => exact hr.keep rfl rfl
  | halved hserves hbig hfirst hinputs hdraft hfee hamount hfinish =>
      refine (finish_cases hfinish).rotated ?_ (hr.keep rfl rfl)
      rw [← hdraft]
      exact hopen.change
  | postponed hserves hbig hmore hinputs hback hfunded hfinish =>
      exact (finish_cases hfinish).rotated hopen.change (hr.keep rfl rfl)

theorem After.rotated {start : Round} (hopen : start.current.IsOpen)
    (hstart : start.Rotated K changeStart) (h : After K P start n r) :
    r.Rotated K changeStart :=
  After.invariant (·.Rotated K changeStart) hstart
    (fun hafter _ hr hturn => hturn.rotated (hafter.isOpen hopen) hr) h

/-- The rotation over a whole round. -/
theorem fulfil_rotated {network : AddressNetwork} {requests : List OutputRequest}
    {credits : List PoolCredit} {start final : Round}
    (hnew : new network requests credits changeStart = .ok start)
    (hfulfil : start.fulfil K P = .ok final) : final.Rotated K changeStart := by
  have hstart := (new_ok_iff.mp hnew).2
  have hopen : start.prepared.current.IsOpen := by
    rw [prepared_parted, hstart]
    exact Draft.isOpen_empty
  have hrotated : start.prepared.Rotated K changeStart := by
    rw [prepared_parted, hstart]
    refine ⟨fun k out hk => ?_, rfl⟩
    cases hk
  obtain ⟨n, s, t, hafter, hfinish, rfl⟩ := fulfil_ok hfulfil
  have ht := (finish_cases hfinish).rotated (hafter.isOpen hopen).change
    (hafter.rotated hopen hrotated)
  rw [settle_eq]
  exact ht.keep rfl rfl

end Round

/-! ## A whole round -/

/-- The addresses in succession to a change address of a book are the change addresses of the book
at the indexes that follow. -/
theorem SeriesBook.changeAddress_of_advance {pool : SeriesBook} {id : SeriesId} {index : Index}
    {a b : ChangeAddress} {n : Nat} (ha : pool.changeAddress K id index = .ok a)
    (hb : a.advance K n = .ok b) : pool.changeAddress K id (index.plus n) = .ok b := by
  have hchange (i : Index) :
      pool.changeAddress K id i = (pool.poolAddress K id .change i).map .mk := by
    unfold changeAddress poolAddress
    cases pool.find? id <;> rfl
  rw [hchange] at ha ⊢
  rw [ChangeAddress.advance_eq] at hb
  obtain ⟨first, hfirst, rfl⟩ := Except.map_eq_ok_iff.mp ha
  obtain ⟨later, hlater, rfl⟩ := Except.map_eq_ok_iff.mp hb
  rw [((SeriesBook.succession hfirst n).1 later hlater).2]
  rfl

namespace Round

/-- **Change addresses rotate once for each change output.** Going from one address of a book to the
next leads to its address at the index so much later, and fails, if all keys have children, just
when that index is not one that public keys have children at. A round that ends well, and was begun
with the change address of a book at an index, pays its change outputs, counted from zero over all
its transactions, to the change addresses of the book at the index so much later, and the next round
begins at the index behind all of them. -/
theorem change_rotates (pool : SeriesBook) (id : SeriesId) (index : Index) :
    (∀ branch a, pool.poolAddress K id branch index = .ok a → ∀ n,
      (∀ b, a.advance K n = .ok b → index.val.toNat + n < Index.unhardenedCount
        ∧ pool.poolAddress K id branch (index.plus n) = .ok b)
      ∧ (K.ChildrenOf a.xpubs →
        (index.val.toNat + n < Index.unhardenedCount → ∃ b, a.advance K n = .ok b)
        ∧ (Index.unhardenedCount ≤ index.val.toNat + n →
          a.advance K n = .error (.hardened ⟨UInt32.ofNat Index.unhardenedCount⟩))))
    ∧ ∀ changeStart, pool.changeAddress K id index = .ok changeStart →
      ∀ P book roundId requests credits status,
        run K P book roundId requests credits changeStart = .ok status →
        ∃ start final, new book.network requests credits changeStart = .ok start
          ∧ start.fulfil K P = .ok final ∧ final.toStatus K book roundId = .ok status
          ∧ (∀ k out, (changes final.finalized)[k]? = some out →
            ∃ a, pool.changeAddress K id (index.plus k) = .ok a ∧ out.script = a.script)
          ∧ pool.changeAddress K id (index.plus (changes final.finalized).length)
            = .ok status.nextChange := by
  constructor
  · exact fun branch a ha n => SeriesBook.succession ha n
  · intro changeStart hchange P book roundId requests credits status hrun
    obtain ⟨start, final, hnew, hfulfil, hstatus⟩ := run_ok hrun
    have hrotated := fulfil_rotated hnew hfulfil
    refine ⟨start, final, hnew, hfulfil, hstatus, ?_, ?_⟩
    · intro k out hk
      obtain ⟨a, ha, hscript⟩ := hrotated.paid k out hk
      exact ⟨a, SeriesBook.changeAddress_of_advance hchange ha, hscript⟩
    · obtain ⟨signed, -, rfl⟩ := toStatus_ok hstatus
      exact SeriesBook.changeAddress_of_advance hchange hrotated.next

end Round

/-! ## A round with two change outputs, and the last change address -/

/-- The scheme of the chain for keys that have all children: where a key has none, it stands in for
its child. -/
def KeyScheme.covering : KeyScheme :=
  { secp256k1 with
    childPublic? := fun k number => some ((secp256k1.childPublic? k number).getD k.key) }

theorem KeyScheme.childrenOf_covering (keys : List Xpub) : covering.ChildrenOf keys :=
  fun _ _ _ _ => rfl

namespace Round

namespace Rotating

/-- Three requests in their order, for amounts that leave something, nothing and more. -/
def dues : List DueRequest :=
  [⟨{ Sample.paying with amount := 4000, id := ⟨"server", 1⟩ }, Sample.script⟩,
    ⟨{ Sample.paying with amount := 5000, id := ⟨"server", 3⟩ }, Sample.script⟩,
    ⟨{ Sample.paying with amount := 4000, id := ⟨"server", 2⟩ }, Sample.script⟩]

def requests : List OutputRequest := dues.map (·.request)

/-- One credit for each of the requests. -/
def credits : List PoolCredit :=
  [⟨⟨Vector.replicate 32 1, 0⟩, 6000, some 1, Sample.address 1⟩,
    ⟨⟨Vector.replicate 32 1, 1⟩, 6000, some 1, Sample.address 1⟩,
    ⟨⟨Vector.replicate 32 1, 2⟩, 7000, some 1, Sample.address 1⟩]

/-- A fee of a thousand for each transaction, and room for one payment in each. -/
def policy : TxPolicy := (⟨1000, 0, 0, 0, none, none, some 2⟩ : LinearPolicy).toPolicy

/-- The change address at an index. -/
def changeAt (index : Index) : ChangeAddress :=
  ⟨⟨⟨1⟩, .change, index, 1, .regtest, [Sample.xpub],
    [(KeyScheme.secp256k1.childPublic? Sample.xpub index.val).getD Sample.key]⟩⟩

theorem changeAddress_eq {index : Index} (hindex : index.isUnhardened = true) :
    Sample.book.changeAddress .covering ⟨1⟩ index = .ok (changeAt index) := by
  have hchild : childKey .covering Sample.xpub index
      = .ok ((KeyScheme.secp256k1.childPublic? Sample.xpub index.val).getD Sample.key) :=
    childKey_eq_ok_iff.mpr ⟨hindex, rfl⟩
  have hderived : PoolAddress.ofKeys .covering ⟨1⟩ 1 [Sample.xpub] .change index .regtest
      = .ok (changeAt index).address :=
    PoolAddress.ofKeys_eq_ok_iff.mpr ⟨_, _, rfl, .cons hchild .nil, rfl⟩
  exact congrArg (Except.map ChangeAddress.mk) hderived

theorem changeAt_of_plus {k : Nat} {index : Index} {a : ChangeAddress}
    (h : Sample.book.changeAddress .covering ⟨1⟩ (Index.plus ⟨0⟩ k) = .ok a)
    (hindex : Index.plus ⟨0⟩ k = index) (hunhardened : index.isUnhardened = true) :
    a = changeAt index := by
  rw [hindex, changeAddress_eq hunhardened] at h
  exact (Except.ok.inj h).symm

def start : Round := opening dues credits (changeAt ⟨0⟩)

theorem new_eq : new .regtest requests credits (changeAt ⟨0⟩) = .ok start :=
  new_opening (by decide) (by simp [dues, Sample.script_paying]) (by decide)

theorem prepared_start : start.prepared = start :=
  prepared_opening (by decide) (by decide +kernel)

/-- The round closes three transactions; the second one has no change. -/
theorem fulfil_isOk : ∃ final, start.fulfil .covering policy = .ok final
    ∧ final.finalized.map (fun d => d.change.map (·.value)) = [some 1000, none, some 2000] := by
  have hok : (start.fulfil .covering policy).toOption.any (fun final =>
      final.finalized.map (fun d => d.change.map (·.value)) = [some 1000, none, some 2000])
        = true := by
    rw [fulfil_eq, prepared_start]
    decide +kernel
  obtain ⟨final, hfinal, htest⟩ := fulfil_any hok
  exact ⟨final, hfinal, of_decide_eq_true htest⟩

theorem run_isOk :
    ∃ status, run .covering policy Sample.book 1 requests credits (changeAt ⟨0⟩) = .ok status := by
  have hok : (run .covering policy Sample.book 1 requests credits (changeAt ⟨0⟩)).isOk = true := by
    have hnew : new Sample.book.network requests credits (changeAt ⟨0⟩) = .ok start := new_eq
    unfold run
    rw [hnew]
    dsimp only
    rw [fulfil_eq, prepared_start]
    decide +kernel
  cases hrun : run .covering policy Sample.book 1 requests credits (changeAt ⟨0⟩) with
  | error e =>
      rw [hrun] at hok
      cases hok
  | ok status => exact ⟨status, rfl⟩

/-- The index before the last one that public keys have children at. -/
def nearLast : Index := ⟨0x7ffffffe⟩

theorem poolAddress_nearLast :
    ∃ a, Sample.book.poolAddress .covering ⟨1⟩ ⟨0⟩ nearLast = .ok a := by
  have hindex : nearLast.isUnhardened = true := by decide
  have horder : branchOrder [Sample.xpub] ⟨0⟩ = .ok [Sample.xpub] := rfl
  have hderived : ∃ a,
      PoolAddress.ofKeys .covering ⟨1⟩ 1 [Sample.xpub] ⟨0⟩ nearLast .regtest = .ok a :=
    PoolAddress.exists_ofKeys (KeyScheme.childrenOf_covering _) horder hindex
  exact hderived

/-- The change outputs of three drafts of which the second one has none. -/
theorem changes_of_values {finalized : List Draft} {first last : Nat}
    (h : finalized.map (fun d => d.change.map (·.value)) = [some first, none, some last]) :
    ∃ out out', finalized.map (·.change) = [some out, none, some out']
      ∧ changes finalized = [out, out'] ∧ out.value = first ∧ out'.value = last := by
  obtain ⟨d, d', d'', rfl⟩ : ∃ d d' d'', finalized = [d, d', d''] :=
    List.length_eq_three.mp (by simpa using congrArg List.length h)
  simp only [List.map_cons, List.map_nil, List.cons.injEq, and_true, Option.map_eq_some_iff,
    Option.map_eq_none_iff] at h
  obtain ⟨⟨out, hout, hvalue⟩, hnone, out', hout', hvalue'⟩ := h
  refine ⟨out, out', ?_, ?_, hvalue, hvalue'⟩
  · simp only [List.map_cons, List.map_nil, hout, hnone, hout']
  · simp only [changes, List.filterMap_cons, List.filterMap_nil, WithdrawalTx.change?_ofDraft,
      hout, hnone, hout']

end Rotating

open Rotating in
/-- The change of the first transaction goes to the address at index zero, that of the third one to
the address at index one, and the next round begins at index two. From the index before the last
there is one step more. -/
theorem rotating_changes :
    (∃ (status : RoundStatus) (final : Round),
      run .covering policy Sample.book 1 requests credits (changeAt ⟨0⟩) = .ok status
        ∧ final.toStatus .covering Sample.book 1 = .ok status
        ∧ final.finalized.map (·.change)
          = [some ⟨1000, (changeAt ⟨0⟩).script⟩, none, some ⟨2000, (changeAt ⟨1⟩).script⟩]
        ∧ status.nextChange = changeAt ⟨2⟩)
    ∧ ∃ a b, Sample.book.poolAddress .covering ⟨1⟩ ⟨0⟩ nearLast = .ok a
        ∧ a.advance .covering 1 = .ok b
        ∧ a.advance .covering 2 = .error (.hardened ⟨UInt32.ofNat Index.unhardenedCount⟩) := by
  constructor
  · obtain ⟨status, hrun⟩ := run_isOk
    have hbegin : Sample.book.changeAddress .covering ⟨1⟩ ⟨0⟩ = .ok (changeAt ⟨0⟩) :=
      changeAddress_eq (by decide)
    have hrotates := (change_rotates Sample.book ⟨1⟩ ⟨0⟩).2 (changeAt ⟨0⟩) hbegin policy
      Sample.book 1 requests credits status hrun
    obtain ⟨begun, final, hnew, hfulfil, hstatus, hpaid, hnext⟩ := hrotates
    obtain rfl : start = begun := Except.ok.inj (new_eq.symm.trans hnew)
    obtain ⟨final', hfulfil', hvalues⟩ := fulfil_isOk
    obtain rfl : final' = final := Except.ok.inj (hfulfil'.symm.trans hfulfil)
    obtain ⟨⟨value, script⟩, ⟨value', script'⟩, hmap, hchanges, rfl, rfl⟩ :=
      changes_of_values hvalues
    rw [hchanges] at hpaid hnext
    obtain ⟨a, ha, hscript⟩ := hpaid 0 _ rfl
    obtain ⟨b, hb, hscript'⟩ := hpaid 1 _ rfl
    obtain rfl : a = changeAt ⟨0⟩ := changeAt_of_plus ha (by decide) (by decide)
    obtain rfl : b = changeAt ⟨1⟩ := changeAt_of_plus hb (by decide) (by decide)
    have hlast : status.nextChange = changeAt ⟨2⟩ :=
      changeAt_of_plus (k := 2) hnext (by decide) (by decide)
    refine ⟨status, final', hrun, hstatus, ?_, hlast⟩
    exact hmap.trans (by rw [← hscript, ← hscript'])
  · obtain ⟨a, ha⟩ := poolAddress_nearLast
    have hchildren := KeyScheme.childrenOf_covering a.xpubs
    obtain ⟨hone, -⟩ := ((change_rotates Sample.book ⟨1⟩ nearLast).1 ⟨0⟩ a ha 1).2 hchildren
    obtain ⟨-, htwo⟩ := ((change_rotates Sample.book ⟨1⟩ nearLast).1 ⟨0⟩ a ha 2).2 hchildren
    obtain ⟨b, hb⟩ := hone (by decide)
    exact ⟨a, b, ha, hb, htwo (by decide)⟩

end Round

end NotaryPool
