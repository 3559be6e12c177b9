import LetsEmbed.Systems.Machine
import LetsEmbed.Rust
import LetsEmbed.Config
import LetsEmbed.Account
import LetsEmbed.Proofs.AccountSteps
import LetsEmbed.Proofs.AccountInvariant
import LetsEmbed.Proofs.AccountHistory
import LetsEmbed.Systems.Recency
import LetsEmbed.Proofs.AccountDedupe
import LetsEmbed.Proofs.AccountStatus
import LetsEmbed.Systems.Potential
import LetsEmbed.Proofs.AccountLedger
import LetsEmbed.Proofs.AccountGrant
import LetsEmbed.Systems.Quota
import LetsEmbed.Proofs.AccountQuota
import LetsEmbed.Gateway
import LetsEmbed.Systems.Authority
import LetsEmbed.Json
import LetsEmbed.Proofs.GatewayHosts
import LetsEmbed.Services
import LetsEmbed.Rates
import LetsEmbed.Session
import LetsEmbed.Solana
import LetsEmbed.Payments
import LetsEmbed.Proofs.PaymentsEarned
import LetsEmbed.Proofs.PaymentsBurn
import LetsEmbed.Proofs.PaymentsRules
import LetsEmbed.Auth
import LetsEmbed.Systems.Pool
import LetsEmbed.Worker
import LetsEmbed.Proofs.PaymentsOnce
import LetsEmbed.Proofs.SolanaEvidence
import LetsEmbed.Proofs.TextUtf8
import LetsEmbed.Likes
import LetsEmbed.Proofs.GatewayForm
import LetsEmbed.Proofs.LikesPages
import LetsEmbed.Embed
import LetsEmbed.Proofs.EmbedClaims
import LetsEmbed.Proofs.GatewayMetering
import LetsEmbed.Proofs.PaymentsFootprint
import LetsEmbed.Proofs.SolanaLinkApart
import LetsEmbed.Siwe
import LetsEmbed.Proofs.AuthRules
import LetsEmbed.Proofs.AuthNonce
import LetsEmbed.Proofs.PaymentsAgree
import LetsEmbed.Proofs.PaymentsRelease
import LetsEmbed.Db
import LetsEmbed.Proofs.DbLinks
import LetsEmbed.Proofs.AccountAlarm
import LetsEmbed.Proofs.AccountHorizon
import LetsEmbed.Pages
import LetsEmbed.Proofs.PagesRedirect
import LetsEmbed.Proofs.PagesMedia
import LetsEmbed.Proofs.SiweTimestamps
import LetsEmbed.Proofs.SessionPrincipals
import LetsEmbed.Proofs.TokenAgreement
import LetsEmbed.Systems.Base64
import LetsEmbed.Convert
import LetsEmbed.Proofs.ConvertStore
import LetsEmbed.Pipeline
import LetsEmbed.Proofs.PipelineAlignment
import LetsEmbed.Results
import LetsEmbed.Proofs.ResultsPages
import LetsEmbed.ResultsQuery
import LetsEmbed.Systems.Windows
import LetsEmbed.Proofs.ResultsListing
import LetsEmbed.Proofs.SearchEngineRandom
import LetsEmbed.Proofs.AccountOverflow
import LetsEmbed.Proofs.RatesPoints
import LetsEmbed.Proofs.TextDigits
import LetsEmbed.Proofs.RatesFeed
import LetsEmbed.Systems.Calendar
import LetsEmbed.Proofs.SiweStamp
import LetsEmbed.Proofs.SiweDates
import LetsEmbed.Proofs.SiweRendering
import LetsEmbed.Proofs.PagesBase58
import LetsEmbed.Systems.Best
import LetsEmbed.Systems.F32
import LetsEmbed.WdTagger
import LetsEmbed.Proofs.WdTaggerTopK
import LetsEmbed.Systems.Words
import LetsEmbed.Proofs.SearchEngineMix
import LetsEmbed.Proofs.PaymentsQuantities
import LetsEmbed.Proofs.GatewayNext
import LetsEmbed.SearchTables
import LetsEmbed.Proofs.SearchTablesPages
import LetsEmbed.Proofs.SearchTablesLiteral
import LetsEmbed.Systems.SipHash
import LetsEmbed.Proofs.SearchCacheKeys
import LetsEmbed.Access
import LetsEmbed.Proofs.AccessAgreement
import LetsEmbed.Systems.Alone
import LetsEmbed.Proofs.DbImports
import LetsEmbed.Phases
import LetsEmbed.Proofs.PhasesAccounting
import LetsEmbed.Proofs.RecordCompletion
import LetsEmbed.Proofs.RecordProgress
import LetsEmbed.Platform
import LetsEmbed.Proofs.PlatformAccounts
import LetsEmbed.Proofs.PlatformBans
import LetsEmbed.Proofs.PlatformCredits
import LetsEmbed.LazyModel
import LetsEmbed.LikeButton
import LetsEmbed.LoginPage
import LetsEmbed.Proofs.LazyModelIdle
import LetsEmbed.Proofs.LikeButtonTelling
import LetsEmbed.Proofs.LoginPageMessages
import LetsEmbed.Proofs.LoginPageSignIn
import LetsEmbed.Proofs.TranslationsSearch
import LetsEmbed.Proofs.ResultsEnd
import LetsEmbed.Proofs.SearchBarQueries
import LetsEmbed.Details
import LetsEmbed.Proofs.DetailsPills
