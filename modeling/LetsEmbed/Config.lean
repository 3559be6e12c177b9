/-! Pricing, limits and the payment-token registry (`user_worker/src/config.rs`). -/

namespace LetsEmbed.Config

def pointsPerUsd : Int := 10_000
def costImageView : Int := 1
def costVideoView : Int := 5
def costSearch : Int := 100
def costEmbedSearch : Int := 10
def freeGrantPoints : Int := 3_000
def minTopupPoints : Int := 1_000

def windowSecs : Nat := 5 * 3600
def dedupeWindowSecs : Nat := 86_400
def sessionTtlSecs : Nat := 7 * 86_400
def siweMaxAgeSecs : Nat := 600

def minConfirmations : Nat := 6
def chainlinkMaxStaleSecs : Nat := 86_400

structure Plan where
  id : String
  pricePoints : Int
  /-- Media view-units per window; `none` is unlimited. -/
  viewsPerWindow : Option Int
  searchesPerWindow : Int
  periodSecs : Nat
  deriving DecidableEq, Repr

def basic : Plan := ⟨"basic", 20_000, some 2_000, 10, 30 * 86_400⟩
def pro : Plan := ⟨"pro", 50_000, none, 50, 30 * 86_400⟩

def plans : List Plan := [basic, pro]

def plan (id : String) : Option Plan := plans.find? fun p => p.id == id

theorem plan_mem {id : String} {p : Plan} (found : plan id = some p) : p ∈ plans :=
  List.mem_of_find?_eq_some found

theorem plan_id {id : String} {p : Plan} (found : plan id = some p) : p.id = id := by
  simpa using List.find?_some found

/-- What every plan on sale satisfies: prices and periods are positive and the
quotas cover at least one charge of any kind. -/
structure Plan.Sound (p : Plan) : Prop where
  price : 0 < p.pricePoints ∧ p.pricePoints ≤ 50_000
  period : 0 < p.periodSecs
  search : 0 < p.searchesPerWindow
  views : ∀ limit ∈ p.viewsPerWindow, costEmbedSearch ≤ limit

theorem plan_sound {id : String} {p : Plan} (found : plan id = some p) : p.Sound := by
  have member := plan_mem found
  simp only [plans, List.mem_cons, List.not_mem_nil, or_false] at member
  rcases member with rfl | rfl <;>
    exact ⟨by decide, by decide, by decide, by simp [basic, pro, costEmbedSearch]⟩

inductive Chain where
  | ethereum
  | solana
  deriving DecidableEq, Repr

def Chain.asStr : Chain → String
  | .ethereum => "ethereum"
  | .solana => "solana"

def Chain.parse (s : String) : Option Chain :=
  if s = "ethereum" then some .ethereum
  else if s = "solana" then some .solana
  else none

/-- One accepted top-up asset. No contract marks the chain's native coin, no
feed a stablecoin at one dollar. -/
structure TokenSpec where
  chain : Chain
  symbol : String
  decimals : Nat
  contract : Option String
  feed : Option String
  deriving DecidableEq, Repr

def feedEthUsd : String := "0x5f4ec3df9cbd43714fe2740f5e3616155c5b8419"
def feedSolUsd : String := "0x4ffc43a60e009b551865a93d232e33fce9f01507"

def tokens : List TokenSpec := [
  ⟨.ethereum, "eth", 18, none, some feedEthUsd⟩,
  ⟨.ethereum, "usdt", 6, some "0xdac17f958d2ee523a2206206994597c13d831ec7", none⟩,
  ⟨.ethereum, "usdc", 6, some "0xa0b86991c6218b36c1d19d4a2e9eb0ce3606eb48", none⟩,
  ⟨.solana, "sol", 9, none, some feedSolUsd⟩,
  ⟨.solana, "usdt", 6, some "Es9vMFrzaCERmJfrF4H2FYD4KCoNkY11McCe8BenwNYB", none⟩,
  ⟨.solana, "usdc", 6, some "EPjFWdd5AufqSSqeM2qN1xzybapC8G4wEGGkZwyTDt1v", none⟩]

/-- Look up an accepted asset; `symbol` is lowercase. -/
def token (chain : Chain) (symbol : String) : Option TokenSpec :=
  tokens.find? fun t => t.chain == chain && t.symbol == symbol

end LetsEmbed.Config
