import AnkerNode.Primitives.Transaction

namespace AnkerNode

def SCRIPT_OFFSET : Nat := 6

inductive CoinDenomination where
  | ZQ_ERROR
  | ZQ_ONE
  | ZQ_FIVE
  | ZQ_TEN
  | ZQ_FIFTY
  | ZQ_ONE_HUNDRED
  | ZQ_FIVE_HUNDRED
  | ZQ_ONE_THOUSAND
  | ZQ_FIVE_THOUSAND
deriving DecidableEq, Repr

namespace CoinDenomination

def toInt : CoinDenomination → Int
  | ZQ_ERROR => 0
  | ZQ_ONE => 1
  | ZQ_FIVE => 5
  | ZQ_TEN => 10
  | ZQ_FIFTY => 50
  | ZQ_ONE_HUNDRED => 100
  | ZQ_FIVE_HUNDRED => 500
  | ZQ_ONE_THOUSAND => 1000
  | ZQ_FIVE_THOUSAND => 5000

def ofInt (amount : Int) : CoinDenomination :=
  if amount = 1 then ZQ_ONE
  else if amount = 5 then ZQ_FIVE
  else if amount = 10 then ZQ_TEN
  else if amount = 50 then ZQ_FIFTY
  else if amount = 100 then ZQ_ONE_HUNDRED
  else if amount = 500 then ZQ_FIVE_HUNDRED
  else if amount = 1000 then ZQ_ONE_THOUSAND
  else if amount = 5000 then ZQ_FIVE_THOUSAND
  else ZQ_ERROR

def ofAmount (amount : Int) : CoinDenomination :=
  if Int.tmod amount COIN = 0 then ofInt (Int.tdiv amount COIN) else ZQ_ERROR

def toAmount (denomination : CoinDenomination) : Int := COIN * denomination.toInt

end CoinDenomination

inductive SpendType where
  | SPEND
  | STAKE
  | MN_COLLATERAL
  | SIGN_MESSAGE
deriving DecidableEq, Repr

structure CoinSpend where
  coinSerialNumber : Int
  denomination : CoinDenomination
  txOutHash : UInt256
  accumulatorChecksum : UInt32
  version : Nat
  spendType : SpendType
deriving DecidableEq, Repr

structure PublicCoin where
  value : Int
  denomination : CoinDenomination
deriving DecidableEq, Repr

def PUBKEY_VERSION : Nat := 2

structure ZerocoinLib where
  txInToZerocoinSpend : CTxIn → CoinSpend
  setvch : List UInt8 → Int
  validate : PublicCoin → Bool
  hasValidSignature : CoinSpend → Bool
  hasValidSerial : Bool → CoinSpend → Bool
  verify : CoinSpend → Int → Bool
  hashTxOut : List CTxOut → UInt256
  hashSerial : Int → UInt256
  hashPubCoin : Int → UInt256

def txOutToPublicCoin (lib : ZerocoinLib) (txout : CTxOut) : Option PublicCoin :=
  let publicZerocoin := lib.setvch (txout.scriptPubKey.drop SCRIPT_OFFSET)
  let denomination := CoinDenomination.ofAmount txout.nValue
  if denomination = CoinDenomination.ZQ_ERROR then none else some ⟨publicZerocoin, denomination⟩

def zerocoinSpends (lib : ZerocoinLib) (tx : CTransaction) : List CoinSpend :=
  (tx.vin.filter fun txin => txin.scriptSig.isZerocoinSpend).map lib.txInToZerocoinSpend

end AnkerNode
