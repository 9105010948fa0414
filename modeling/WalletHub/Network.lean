import WalletHub.Handle

/-!
# Networks and currencies

A network is one chain, served by one backend, with the currencies that exist on it. Currency
codes are compared without regard to the case of ASCII letters.
-/
namespace WalletHub

/-- The text with ASCII capitals made small. -/
def lowered (s : String) : String := String.ofList (s.toList.map Char.toLower)

/-- Whether two codes are the same up to the case of ASCII letters. -/
def sameCode (a b : String) : Bool := lowered a == lowered b

/-- A unit that amounts of a currency are counted in. -/
structure Denomination where
  code : String
  name : String
  /-- Decimal places relative to the base unit. -/
  decimals : UInt8
  deriving DecidableEq, Repr

structure Currency where
  code : String
  name : String
  /-- The contract that issues a token; none for a native currency. -/
  issuer : Option String
  /-- The unit engines count in. -/
  baseUnit : Denomination
  /-- The unit amounts are shown in. -/
  defaultUnit : Denomination
  deriving DecidableEq, Repr

/-- Whether a contract issues the currency. -/
def Currency.isToken (c : Currency) : Bool := c.issuer.isSome

structure Network where
  name : String
  backend : Backend
  isMainnet : Bool
  /-- Code of the currency fees are paid in. -/
  nativeCurrency : String
  currencies : List Currency
  /-- Number of confirmations from which a transfer counts as settled. -/
  confirmationsUntilFinal : UInt32
  deriving DecidableEq, Repr

namespace Network

/-- The first currency with this code. -/
def currency? (n : Network) (code : String) : Option Currency :=
  n.currencies.find? fun c => sameCode c.code code

/-- The currency fees are paid in. -/
def native? (n : Network) : Option Currency := n.currency? n.nativeCurrency

/-- Adds a currency, unless its code is taken. -/
def insert (n : Network) (c : Currency) : Network :=
  if (n.currency? c.code).isSome then n else { n with currencies := n.currencies ++ [c] }

/-- A network with one currency. -/
def single (name : String) (backend : Backend) (isMainnet : Bool) (native : Currency)
    (confirmationsUntilFinal : UInt32) : Network :=
  ⟨name, backend, isMainnet, native.code, [native], confirmationsUntilFinal⟩

def bitcoin (isMainnet : Bool) : Network :=
  single (if isMainnet then "bitcoin-mainnet" else "bitcoin-testnet") .utxo isMainnet
    ⟨"btc", "Bitcoin", none, ⟨"sat", "Satoshi", 0⟩, ⟨"btc", "Bitcoin", 8⟩⟩ 6

def ethereum (isMainnet : Bool) : Network :=
  single (if isMainnet then "ethereum-mainnet" else "ethereum-ropsten") .account isMainnet
    ⟨"eth", "Ethereum", none, ⟨"wei", "Wei", 0⟩, ⟨"eth", "Ether", 18⟩⟩ 6

end Network

/-- The user account a manager works for. -/
structure Account where
  id : String
  /-- Earliest key creation time, in seconds since 1970. -/
  createdAt : UInt64
  deriving DecidableEq, Repr

end WalletHub
