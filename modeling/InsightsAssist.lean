import InsightsAssist.SessionRefinement
import InsightsAssist.SessionCache
import InsightsAssist.AdminLogin
import InsightsAssist.Admission
import InsightsAssist.AdminAccess
import InsightsAssist.UserAccounts
import InsightsAssist.TransactionStatus
import InsightsAssist.ReportFiles
import InsightsAssist.PerfiosIds
import InsightsAssist.ExpiryDates
import InsightsAssist.LinkRequests
import InsightsAssist.Organisations
import InsightsAssist.OrganisationCache
import InsightsAssist.AdminReplies
import InsightsAssist.ImportOrganisation
import InsightsAssist.ExportOrganisation
import InsightsAssist.OrganisationTransfer
import InsightsAssist.SharedIds
import InsightsAssist.JobTotals
import InsightsAssist.JobOrders
import InsightsAssist.ExecutionTimes
import InsightsAssist.JobScheduler
import InsightsAssist.NativeJobs
import InsightsAssist.KLogger
import InsightsAssist.LogOutput
import InsightsAssist.LogFiles
import InsightsAssist.Unicode
import InsightsAssist.CryptHandler
import InsightsAssist.BlowFish
import InsightsAssist.JobReports
import InsightsAssist.SessionExits
import InsightsAssist.DocumentKinds
import InsightsAssist.Markup
import InsightsAssist.SignedPayloads
import InsightsAssist.LinkGeneration
import InsightsAssist.FileSecurity
import InsightsAssist.UploadedFiles
import InsightsAssist.TransactionDetails
import InsightsAssist.FileTree
import InsightsAssist.CreatedFiles
import InsightsAssist.ScriptCodes
import InsightsAssist.ScriptLoads
import InsightsAssist.ScriptFeeds
import InsightsAssist.JsonTexts
import InsightsAssist.PythonLiterals
import InsightsAssist.PythonParams
import InsightsAssist.JobStates
import InsightsAssist.GroupedParameters
import InsightsAssist.BeanParameters
import InsightsAssist.IpAddresses
import InsightsAssist.Formats
import InsightsAssist.RequestLog
import InsightsAssist.ResponseSecurity
import InsightsAssist.FormValidation
import InsightsAssist.StringUtil
import InsightsAssist.DateUtil
import InsightsAssist.TempFiles
import InsightsAssist.ZipFiles
import InsightsAssist.FileEncryption
import InsightsAssist.MultiMaps
import InsightsAssist.PercentCoding
import InsightsAssist.Uris
import InsightsAssist.QueryStrings
import InsightsAssist.FormActions
import InsightsAssist.TypeAdapters
import InsightsAssist.QueryOperations
import InsightsAssist.RequestChain
import InsightsAssist.UserTransactions
import InsightsAssist.CronJobs
import InsightsAssist.Counters
import InsightsAssist.CronExecutions
import InsightsAssist.SchedulerStates
import InsightsAssist.ScriptJobs
import InsightsAssist.SharedFields
import InsightsAssist.ITOnlineStartRequest
import InsightsAssist.TransactionDownloads
