import Bundler.Builder
import Bundler.Command
import Bundler.Config
import Bundler.Directory
import Bundler.Main
import Bundler.Program
import Bundler.Proofs.Accounting
import Bundler.Proofs.Isolation
import Bundler.Proofs.Precedence
import Bundler.Proofs.Recording
import Bundler.Proofs.Spelling
import Bundler.Proofs.Strictness
import Bundler.Proofs.Lenient
import Bundler.Proofs.Records
import Bundler.Proofs.Refusals
import Bundler.Proofs.Reproducible
import Bundler.Proofs.Declarations
import Bundler.Proofs.LineState
import Bundler.Proofs.Gathering
import Bundler.Proofs.Emission
import Bundler.Proofs.Bootstrap
import Bundler.Proofs.Roots
import Bundler.Proofs.Balance
import Bundler.Proofs.RequireOrder
import Bundler.Proofs.Recursion
import Bundler.Proofs.Vacancy
import Bundler.Proofs.SortedSections
import Bundler.Proofs.Unpacking
import Bundler.Proofs.Properties
import Bundler.Proofs.RecordNames
import Bundler.Proofs.Resorting
import Bundler.Proofs.FreshLines
import Bundler.Proofs.Literals
import Bundler.Proofs.Minification
import Bundler.Proofs.Edits
import Bundler.Proofs.Registrations
import Bundler.Proofs.LastPattern
import Bundler.Proofs.PartNames
