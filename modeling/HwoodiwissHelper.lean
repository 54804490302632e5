import HwoodiwissHelper.DecodeBuffers
import HwoodiwissHelper.GitHub.AutoApproval
import HwoodiwissHelper.GitHub.BodyArrivals
import HwoodiwissHelper.GitHub.CacheKeys
import HwoodiwissHelper.GitHub.ConcurrentJwts
import HwoodiwissHelper.GitHub.Deployment
import HwoodiwissHelper.GitHub.GitHubAppAuthProvider
import HwoodiwissHelper.GitHub.GracefulAnswers
import HwoodiwissHelper.GitHub.TokenThrift
import HwoodiwissHelper.Pages.FieldRuns
import HwoodiwissHelper.Phase10.DamagedData
import HwoodiwissHelper.Phase10.EditOrder
import HwoodiwissHelper.Phase10.Finishing
import HwoodiwissHelper.Phase10.Page
import HwoodiwissHelper.Phase10.Replay
import HwoodiwissHelper.Phase10.SeatIndependence
import HwoodiwissHelper.Phase10.SeatOrder
import HwoodiwissHelper.Phase10.SetupScreen
import HwoodiwissHelper.Phase10.Standings
import HwoodiwissHelper.Phase10.Storage
import HwoodiwissHelper.Phase10.TrueTotals
import HwoodiwissHelper.Phase10.Unedited
import HwoodiwissHelper.Phase10.Visits
import HwoodiwissHelper.Phase10.Winner
