import NotaryPool.Series.Registry
import NotaryPool.Withdrawal.Credit

/-!
# Selecting credits

Finds the unspent outputs at the addresses of some ranges that may be spent.

* `SelectionError`: why the selection fails;
* `Selection.creditsAt`: the credits at one address;
* `Selection.eligible`: all credits that may be spent, in the order of spending.
-/

namespace NotaryPool

/-- Why a selection fails. -/
inductive SelectionError where
  | derive (error : DeriveError)
  | unaddressableOutput (outpoint : Outpoint)
  | duplicateCredit (outpoint : Outpoint)
deriving DecidableEq

/-- The name of an error, followed by that of the one inside. -/
def SelectionError.name : SelectionError → String
  | .derive e => "Derive." ++ e.name
  | .unaddressableOutput _ => "UnaddressableOutput"
  | .duplicateCredit _ => "DuplicateCredit"

/-- The text of an error. -/
def SelectionError.message : SelectionError → String
  | .derive e => e.message
  | .unaddressableOutput o =>
    s!"output {o.toText} has a script which can't be represented as an address."
  | .duplicateCredit o => s!"output {o.toText} is reported more than once."

namespace Selection

/-- The outputs at an address that may be spent, as they came. -/
def creditsAt (address : PoolAddress) (unspent : List UnspentOutput) (rules : Eligibility) :
    List PoolCredit :=
  let script := address.script
  let here := unspent.filter fun output => output.script = script
  (here.map (PoolCredit.ofUnspent · address)).filter rules.allows

/-- The credits at the addresses of a range. -/
def creditsIn (K : KeyScheme) (book : SeriesBook) (unspent : List UnspentOutput)
    (rules : Eligibility) (range : AddressRange) : Except DeriveError (List PoolCredit) :=
  range.collect fun branch index =>
    (book.poolAddress K range.series branch index).map (creditsAt · unspent rules)

/-- The credits at the addresses of all ranges, as they are found. -/
def creditsInAll (K : KeyScheme) (book : SeriesBook) (unspent : List UnspentOutput)
    (rules : Eligibility) : List AddressRange → Except DeriveError (List PoolCredit)
  | [] => .ok []
  | range :: rest =>
    match creditsIn K book unspent rules range with
    | .error e => .error e
    | .ok found => (creditsInAll K book unspent rules rest).map (found ++ ·)

/-- The first range that is inverted, or output that has no address. -/
def inputError? (unspent : List UnspentOutput) (ranges : List AddressRange) :
    Option SelectionError :=
  match ranges.find? (!·.isProper) with
  | some range => some (.derive (.invalidRange range))
  | none =>
    match unspent.find? fun output => (Destination.ofScript? output.script).isNone with
    | some output => some (.unaddressableOutput output.outpoint)
    | none => none

/-- All credits in the ranges that may be spent, in the order of spending. -/
def eligible (K : KeyScheme) (book : SeriesBook) (unspent : List UnspentOutput)
    (ranges : List AddressRange) (rules : Eligibility) :
    Except SelectionError (List PoolCredit) :=
  match inputError? unspent ranges with
  | some e => .error e
  | none =>
    match creditsInAll K book unspent rules ranges with
    | .error e => .error (.derive e)
    | .ok found =>
      let credits := PoolCredit.sort found
      match Series.adjacent? (fun a b => PoolCredit.order a b == .eq) credits with
      | some credit => .error (.duplicateCredit credit.outpoint)
      | none => .ok credits

end Selection

end NotaryPool
