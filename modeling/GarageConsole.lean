import GarageConsole.Foundations.Text
import GarageConsole.Foundations.Ascii
import GarageConsole.Foundations.Json
import GarageConsole.Foundations.JsonText
import GarageConsole.Foundations.GoJson
import GarageConsole.Foundations.Alike
import GarageConsole.Foundations.Keyed
import GarageConsole.Foundations.JsonTokens
import GarageConsole.Foundations.Double
import GarageConsole.Foundations.Chunks
import GarageConsole.Foundations.Streams
import GarageConsole.Foundations.Fresh
import GarageConsole.Foundations.Listing
import GarageConsole.Foundations.Difference
import GarageConsole.Foundations.Path
import GarageConsole.Foundations.Url
import GarageConsole.Foundations.Utf8
import GarageConsole.Foundations.Escapes
import GarageConsole.Foundations.Query
import GarageConsole.Foundations.Router
import GarageConsole.Foundations.Browser
import GarageConsole.Foundations.Calls
import GarageConsole.Foundations.Interleaving
import GarageConsole.Foundations.Histories
import GarageConsole.Foundations.Systems
import GarageConsole.Foundations.Reports
import GarageConsole.Garage.Client
import GarageConsole.Garage.Mutation
import GarageConsole.RepairGuard.Guard
import GarageConsole.RepairGuard.TwoReaders
import GarageConsole.RepairGuard.Coverage
import GarageConsole.RepairGuard.Screen
import GarageConsole.RepairGuard.Mirror
import GarageConsole.Objects.S3
import GarageConsole.Objects.BatchDelete
import GarageConsole.Objects.PrefixDelete
import GarageConsole.Objects.PrefixSummary
import GarageConsole.Objects.Tickets
import GarageConsole.Objects.ZipNames
import GarageConsole.Objects.FileNames
import GarageConsole.Objects.BatchZip
import GarageConsole.Objects.Upload
import GarageConsole.Objects.UploadKeys
import GarageConsole.Objects.Overwriting
import GarageConsole.Permissions.BucketKeys
import GarageConsole.Permissions.Service
import GarageConsole.Permissions.SetPermissions
import GarageConsole.Permissions.Concurrent
import GarageConsole.Permissions.Invalidation
import GarageConsole.Permissions.Granting
import GarageConsole.Maintenance.StorageHealth
import GarageConsole.Maintenance.BlockErrors
import GarageConsole.Maintenance.Status
import GarageConsole.Maintenance.Merging
import GarageConsole.Maintenance.Metrics
import GarageConsole.Dashboard.Attention
import GarageConsole.Maintenance.CleanupUploads
import GarageConsole.Routes.Table
import GarageConsole.Buckets.Aliases
import GarageConsole.Audit.Detail
import GarageConsole.Audit.Classification
import GarageConsole.Audit.Streaming
import GarageConsole.Audit.Record
import GarageConsole.Audit.Readers
import GarageConsole.Audit.Secrecy
import GarageConsole.Audit.Agreement
import GarageConsole.Sessions.NextPath
import GarageConsole.Sessions.Model
import GarageConsole.Sessions.Soundness
import GarageConsole.Sessions.Sliding
import GarageConsole.Sessions.Logout
import GarageConsole.Lists.Accounts
import GarageConsole.Lists.Cache
import GarageConsole.Lists.Fetch
import GarageConsole.Lists.Freshness
import GarageConsole.Lists.Handlers
import GarageConsole.Lists.Pages
import GarageConsole.Lists.Rows
import GarageConsole.Lists.Schedules
import GarageConsole.Foundations.Utf16
import GarageConsole.Foundations.OrderedSet
import GarageConsole.Scopes.AdminScopes
import GarageConsole.Scopes.Editor
import GarageConsole.Scopes.TokenForm
import GarageConsole.Objects.Folders
import GarageConsole.Dashboard.Corruptions
import GarageConsole.Objects.UploadQueue
import GarageConsole.Foundations.Regex
import GarageConsole.Cluster.Connect
import GarageConsole.Foundations.Numbers
import GarageConsole.Foundations.NumberText
import GarageConsole.Foundations.OrderedMap
import GarageConsole.Layout.Roles
import GarageConsole.Foundations.Separated
import GarageConsole.Layout.Draft
import GarageConsole.Layout.Totals
import GarageConsole.Sessions.RefreshWriter
import GarageConsole.Foundations.CutOff
import GarageConsole.Audit.CutOff
import GarageConsole.Maintenance.HealthCache
import GarageConsole.Foundations.JsonWriter
import GarageConsole.Foundations.Projection
import GarageConsole.Keys.Import
import GarageConsole.Cluster.ConnectResults
import GarageConsole.Foundations.SearchParams
import GarageConsole.Foundations.KnownPaths
import GarageConsole.Routes.Client
import GarageConsole.Foundations.StableSort
import GarageConsole.Nodes.Answers
import GarageConsole.Objects.Selection
import GarageConsole.Foundations.Comparators
import GarageConsole.Tables.Sorting
import GarageConsole.Foundations.Grouping
import GarageConsole.Tables.Groups
import GarageConsole.Tables.Objects
import GarageConsole.Foundations.Blank
import GarageConsole.Garage.Proxies
import GarageConsole.Nodes.Requests
import GarageConsole.Foundations.ServerForm
import GarageConsole.Buckets.RoutingRules
import GarageConsole.Buckets.Settings
import GarageConsole.Buckets.Quotas
import GarageConsole.Buckets.Uploads
import GarageConsole.Layout.Updates
