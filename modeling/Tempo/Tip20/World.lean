/-
All TIP-20 tokens together: the factory that creates them and the operations
that read other tokens, namely staging and finalising a quote-token change and
walking the quote-token chain.
-/
import Tempo.Tip20.Operations

namespace Tempo

/-- Storage of every token address, and of the guard they share. -/
structure TokenWorld where
  tokens : Address → Token
  guard : ReceivePolicyGuard

namespace TokenWorld

def empty : TokenWorld where
  tokens _ := Token.blank
  guard := ⟨0, fun _ => 0⟩

def ctx (w : TokenWorld) (token : Address) : TokenCtx :=
  ⟨w.tokens token, w.guard⟩

def putCtx (w : TokenWorld) (token : Address) (s : TokenCtx) : TokenWorld :=
  ⟨Function.update w.tokens token s.token, s.guard⟩

def modify (w : TokenWorld) (token : Address) (f : Token → Token) : TokenWorld :=
  { w with tokens := Function.update w.tokens token (f (w.tokens token)) }

end TokenWorld

/-- A call on one token. -/
def onToken {α : Type} (token : Address) (m : Exec TokenCtx α) : Exec TokenWorld α :=
  focus (fun w => w.ctx token) (fun w s => w.putCtx token s) m

theorem yields_onToken {α : Type} {token : Address} {m : Exec TokenCtx α}
    {w w' : TokenWorld} {a : α} :
    Yields (onToken token m) w a w' ↔ ∃ s, Yields m (w.ctx token) a s ∧ w.putCtx token s = w' :=
  yields_focus

theorem ReadOnly.onToken {α : Type} {token : Address} {m : Exec TokenCtx α}
    (hm : ReadOnly m) : ReadOnly (Tempo.onToken token m) :=
  hm.focus fun w => by simp [TokenWorld.putCtx, TokenWorld.ctx]

def usdCurrency : String := "USD"

/-- Addresses below this id are not deployable by users. -/
def reservedSize : Nat := 1024

namespace Tip20

/-- A handle on a token; only the address prefix is checked. -/
def fromAddress (address : Address) : Exec TokenWorld Unit :=
  require address.isTip20 (.tip20 .invalidToken)

def getQuoteToken (token : Address) : Exec TokenWorld Address :=
  reads fun w => (w.tokens token).quoteToken

def getCurrency (token : Address) : Exec TokenWorld String :=
  reads fun w => (w.tokens token).currency

end Tip20

namespace Tip20Factory

open Tip20

variable (env : Env)

/-- The address derived from the sender and a salt, with its id; `keccakId`
stands for the first eight bytes of the hash. -/
def computeTip20Address (keccakId : Address → B256 → BitVec 64)
    (sender : Address) (salt : B256) : Address × Nat :=
  (.newTip20 (keccakId sender salt), (keccakId sender salt).toNat)

/-- Right prefix and deployed. -/
def isTip20 (token : Address) : Exec TokenWorld Bool :=
  reads fun w => token.isTip20 && (w.tokens token).deployed

/-- A USD token must be quoted in USD. -/
def checkQuoteCurrency (currency : String) (quoteToken : Address) : Exec TokenWorld Unit :=
  if currency = usdCurrency then do
    fromAddress quoteToken
    let quoteCurrency ← getCurrency quoteToken
    require (quoteCurrency = usdCurrency) (.tip20 .invalidQuoteToken)
  else pure ()

def createToken (keccakId : Address → B256 → BitVec 64) (sender : Address)
    (salt : B256) (currency : String) (quoteToken admin : Address) : Exec TokenWorld Address := do
  let derived := computeTip20Address keccakId sender salt
  let taken ← isTip20 derived.1
  require (taken = false) (.tip20Factory (.tokenAlreadyExists derived.1))
  let valid ← isTip20 quoteToken
  require (valid = true) (.tip20 .invalidQuoteToken)
  checkQuoteCurrency currency quoteToken
  require (¬derived.2 < reservedSize) (.tip20Factory .addressReserved)
  fromAddress derived.1
  onToken derived.1 (initializeToken env currency quoteToken admin)
  pure derived.1

/-- Used at genesis and by hardforks; only such a token may have no quote
token, and pathUSD must not have one. -/
def createTokenReservedAddress (address : Address) (currency : String)
    (quoteToken admin : Address) : Exec TokenWorld Address := do
  require address.isTip20 (.tip20 .invalidToken)
  let taken ← isTip20 address
  require (taken = false) (.tip20Factory (.tokenAlreadyExists address))
  if quoteToken ≠ 0 then do
    let valid ← isTip20 quoteToken
    require (address ≠ pathUsdAddress ∧ valid = true) (.tip20 .invalidQuoteToken)
    checkQuoteCurrency currency quoteToken
  else pure ()
  require ((address.word.extractLsb' 0 64).toNat < reservedSize) (.tip20Factory .addressNotReserved)
  fromAddress address
  onToken address (initializeToken env currency quoteToken admin)
  pure address

end Tip20Factory

namespace Tip20

/-- Stages a new quote token. -/
def setNextQuoteToken (token msgSender newQuoteToken : Address) : Exec TokenWorld Unit := do
  onToken token (checkRole msgSender defaultAdminRole)
  require (token ≠ pathUsdAddress) (.tip20 .invalidQuoteToken)
  let valid ← Tip20Factory.isTip20 newQuoteToken
  require (valid = true) (.tip20 .invalidQuoteToken)
  let currency ← getCurrency token
  Tip20Factory.checkQuoteCurrency currency newQuoteToken
  updates fun w => w.modify token fun t =>
    { t with nextQuoteToken := newQuoteToken }

/-- The loop that walks from the staged quote token to the root, refusing to
meet the token itself. -/
def walkToRoot (token : Address) : Nat → Address → Exec TokenWorld Unit
  | 0, _ => fails .outOfFuel
  | fuel + 1, current =>
    if current = pathUsdAddress then pure ()
    else do
      require (current ≠ token) (.tip20 .invalidQuoteToken)
      fromAddress current
      let next ← getQuoteToken current
      walkToRoot token fuel next

/-- Finalises the staged quote token. -/
def completeQuoteTokenUpdate (fuel : Nat) (token msgSender : Address) : Exec TokenWorld Unit := do
  onToken token (checkRole msgSender defaultAdminRole)
  let nextQuoteToken ← reads fun w => (w.tokens token).nextQuoteToken
  walkToRoot token fuel nextQuoteToken
  updates fun w => w.modify token fun t =>
    { t with quoteToken := nextQuoteToken }

end Tip20

namespace StablecoinDex

/-- The tokens from `token` to the root, both included. -/
def findPathToRoot : Nat → Address → Exec TokenWorld (List Address)
  | 0, _ => fails .outOfFuel
  | fuel + 1, token =>
    if token = pathUsdAddress then pure [token]
    else do
      Tip20.fromAddress token
      let next ← Tip20.getQuoteToken token
      let path ← findPathToRoot fuel next
      pure (token :: path)

end StablecoinDex

end Tempo
