import BindingRelease.Arguments.Command
import BindingRelease.Arguments.Grammar
import BindingRelease.Arguments.Reading
import BindingRelease.Build
import BindingRelease.Checkout
import BindingRelease.Console
import BindingRelease.Context
import BindingRelease.Decimal.Reading
import BindingRelease.Decimal.Shortest
import BindingRelease.Entry
import BindingRelease.Env
import BindingRelease.EnvFile.Loading
import BindingRelease.EnvFile.Statement
import BindingRelease.EnvFile.Variables
import BindingRelease.Error
import BindingRelease.Main
import BindingRelease.Matrix
import BindingRelease.Matrix.Loading
import BindingRelease.Path
import BindingRelease.Pipeline
import BindingRelease.Pool
import BindingRelease.Program
import BindingRelease.Provision
import BindingRelease.Publish
import BindingRelease.Publish.Host
import BindingRelease.Publish.Upload
import BindingRelease.Report
import BindingRelease.Request
import BindingRelease.Run
import BindingRelease.Schema
import BindingRelease.Settings
import BindingRelease.Shell.Words
import BindingRelease.Simulation.FileTree
import BindingRelease.Simulation.World
import BindingRelease.Step
import BindingRelease.Target
import BindingRelease.Text.Blank
import BindingRelease.Text.Digit
import BindingRelease.Text.Literal
import BindingRelease.Text.Percent
import BindingRelease.Text.Printable
import BindingRelease.Text.Template
import BindingRelease.Toolchain
import BindingRelease.Value
import BindingRelease.Value.Json
import BindingRelease.Value.Moment
import BindingRelease.Workflow
import BindingRelease.Yaml.Cursor
import BindingRelease.Yaml.Node
import BindingRelease.Yaml.Printer
import BindingRelease.Yaml.Reading
import BindingRelease.Yaml.Scalar
import BindingRelease.Yaml.Token
import BindingRelease.Yaml.Token.Reader
import BindingRelease.Yaml.Token.Scalar
import BindingRelease.Yaml.Token.Tag
import BindingRelease.Proofs.Interleaving
import BindingRelease.Proofs.Calls
import BindingRelease.Proofs.Escapes
import BindingRelease.Proofs.FanOut
import BindingRelease.Proofs.LostReports
import BindingRelease.Proofs.PublishingRace
import BindingRelease.Proofs.Reports
import BindingRelease.Proofs.Cancellation
import BindingRelease.Proofs.CommandLines
import BindingRelease.Proofs.TokenSecrecy
import BindingRelease.Proofs.RenderedJobs
import BindingRelease.Proofs.Words
import BindingRelease.Proofs.RoundTrip
import BindingRelease.Proofs.OneByOne
import BindingRelease.Proofs.Rehearsals
import BindingRelease.Proofs.Completion
import BindingRelease.Proofs.Endings
import BindingRelease.Proofs.Environments
import BindingRelease.Proofs.Paths
import BindingRelease.Proofs.ProvisionedClang
import BindingRelease.Proofs.MatrixFiles
import BindingRelease.Proofs.ConsoleSettings
import BindingRelease.Proofs.ShownToolchains
import BindingRelease.Proofs.RunSummaries
import BindingRelease.Proofs.PercentCoding
import BindingRelease.Proofs.ReleaseTags
import BindingRelease.Proofs.Diagnostics
import BindingRelease.Proofs.UploadProtocol
import BindingRelease.Proofs.WordGrammar
import BindingRelease.Proofs.Scripts
import BindingRelease.Proofs.InstallCommands
import BindingRelease.Proofs.ClangSearch
import BindingRelease.Proofs.UniqueArtifacts
import BindingRelease.Proofs.UploadAddresses
import BindingRelease.Proofs.LocalVariables
import BindingRelease.Proofs.UploadArguments
import BindingRelease.Proofs.HostSwitch
import BindingRelease.Proofs.HostShards
