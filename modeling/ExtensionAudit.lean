import ExtensionAudit.Archive.Checksum
import ExtensionAudit.Archive.CodePage
import ExtensionAudit.Archive.Extraction
import ExtensionAudit.Archive.Inflate
import ExtensionAudit.Command.Arguments
import ExtensionAudit.Command.Run
import ExtensionAudit.Disk.Basic
import ExtensionAudit.Disk.Document
import ExtensionAudit.Disk.Search
import ExtensionAudit.Disk.Spelling
import ExtensionAudit.Disk.Workspace
import ExtensionAudit.Fetch
import ExtensionAudit.Identifier
import ExtensionAudit.Join
import ExtensionAudit.Json.Reader
import ExtensionAudit.Lint
import ExtensionAudit.Main
import ExtensionAudit.Manifest.Facts
import ExtensionAudit.Manifest.Reader
import ExtensionAudit.Overview
import ExtensionAudit.Package
import ExtensionAudit.Report
import ExtensionAudit.Request.Basic
import ExtensionAudit.Request.Driving
import ExtensionAudit.Score.Library
import ExtensionAudit.Score.Metadata
import ExtensionAudit.Score.Permission
import ExtensionAudit.Score.Policy
import ExtensionAudit.Script.Files
import ExtensionAudit.Script.Search
import ExtensionAudit.Script.Usage
import ExtensionAudit.Settings.Loading
import ExtensionAudit.Severity
import ExtensionAudit.Size
import ExtensionAudit.Text.Utf8
import ExtensionAudit.Tool.Behavior
import ExtensionAudit.Tool.Output
import ExtensionAudit.Web.Answer
import ExtensionAudit.Web.Description
import ExtensionAudit.Web.Location
import ExtensionAudit.Web.Page
import ExtensionAudit.Web.Service
import ExtensionAudit.Proofs.Package
import ExtensionAudit.Request.Course
import ExtensionAudit.Proofs.Disk
import ExtensionAudit.Proofs.Request.Lifecycle
import ExtensionAudit.Proofs.Archive.Extraction
import ExtensionAudit.Proofs.Script.Search
import ExtensionAudit.Proofs.Script.ReadBack
import ExtensionAudit.Proofs.Join
import ExtensionAudit.Proofs.Request.Analysis
import ExtensionAudit.Proofs.Request.Total
import ExtensionAudit.Proofs.Request.Success
import ExtensionAudit.Proofs.Letter
import ExtensionAudit.Proofs.Identifier
import ExtensionAudit.Proofs.Json
import ExtensionAudit.Proofs.Settings.Layers
import ExtensionAudit.Proofs.Settings.Precedence
import ExtensionAudit.Gathering
import ExtensionAudit.Proofs.Gathering
import ExtensionAudit.Proofs.Gathering.Ending
import ExtensionAudit.Proofs.Tool.Run
import ExtensionAudit.Proofs.Request.Runs
import ExtensionAudit.Proofs.Request.Moments
import ExtensionAudit.Proofs.Request.Processes
import ExtensionAudit.Proofs.Json.Parts
import ExtensionAudit.Proofs.Manifest.Policy
import ExtensionAudit.Proofs.Number
import ExtensionAudit.Proofs.Fetch
import ExtensionAudit.Proofs.Score.Library
import ExtensionAudit.Proofs.Tool.Scan
import ExtensionAudit.Proofs.Utf8
import ExtensionAudit.Proofs.Web.Answer
import ExtensionAudit.Proofs.Request.Driving
import ExtensionAudit.Proofs.Web.Service
import ExtensionAudit.Proofs.Archive.Untold
import ExtensionAudit.Proofs.Settings.Untold
import ExtensionAudit.Proofs.Document
import ExtensionAudit.Proofs.Command.Run
import ExtensionAudit.Disk.Chore
import ExtensionAudit.Request.Scene
import ExtensionAudit.Proofs.Chore
import ExtensionAudit.Proofs.Request.Cleaning
import ExtensionAudit.Proofs.Json.Address
import ExtensionAudit.Proofs.Manifest.Search
import ExtensionAudit.Proofs.Entries
import ExtensionAudit.Proofs.Score.Policy
import ExtensionAudit.Proofs.Score.Findings
import ExtensionAudit.Request.Company
import ExtensionAudit.Proofs.Contents
import ExtensionAudit.Proofs.Alike
import ExtensionAudit.Proofs.Tool.Alike
import ExtensionAudit.Proofs.Request.Alike
import ExtensionAudit.Proofs.Request.Company
import ExtensionAudit.Proofs.Score.Permission
import ExtensionAudit.Proofs.Script.ChromeApi
import ExtensionAudit.Proofs.Script.DataHandling
import ExtensionAudit.Proofs.Lint
import ExtensionAudit.Proofs.Tool.Lint
import ExtensionAudit.Proofs.Fetch.Limit
import ExtensionAudit.Proofs.Lint.Account
import ExtensionAudit.Proofs.Request.Reporting
import ExtensionAudit.Proofs.Tool.Decision
import ExtensionAudit.Proofs.Json.Checked
import ExtensionAudit.Proofs.Manifest.Checked
import ExtensionAudit.Proofs.Score.Checked
import ExtensionAudit.Proofs.Json.Grammar
import ExtensionAudit.Proofs.Json.Phrase
import ExtensionAudit.Proofs.Json.Lexeme
import ExtensionAudit.Proofs.Json.Reader
import ExtensionAudit.Proofs.Manifest.Reading
import ExtensionAudit.Proofs.Number.Rounding
import ExtensionAudit.Proofs.Size
import ExtensionAudit.Proofs.Spelling
