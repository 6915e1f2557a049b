import RiscvToolchain.Python.Str
import RiscvToolchain.Python.Dict
import RiscvToolchain.ArchString.ParseMarch
import RiscvToolchain.ArchString.Versions
import RiscvToolchain.ArchString.Render
import RiscvToolchain.ArchString.Agreement
import RiscvToolchain.ArchString.Failures
import RiscvToolchain.Gcc.Rtl
import RiscvToolchain.Gcc.HiValue
import RiscvToolchain.Gcc.Division
import RiscvToolchain.Gcc.Peepholes
import RiscvToolchain.Posix.FileSystem
import RiscvToolchain.Semantics.Prog
import RiscvToolchain.Python.Json
import RiscvToolchain.Python.OsPath
import RiscvToolchain.Release.PrepareBeget
import RiscvToolchain.Release.NeverFalse
import RiscvToolchain.Posix.Lines
import RiscvToolchain.Release.BundleCheck
import RiscvToolchain.Mingw.Prepare
import RiscvToolchain.Mingw.OnlyVerified
import RiscvToolchain.Download.FetchSource
import RiscvToolchain.Erratum.ScanFile
import RiscvToolchain.HostRuntime.Check
import RiscvToolchain.Python.TextFile
import RiscvToolchain.Testsuite.Filter
import RiscvToolchain.Testsuite.Excuses
import RiscvToolchain.Testsuite.NamingRule
import RiscvToolchain.Testsuite.Sections
import RiscvToolchain.Testsuite.LosesNoFailure
import RiscvToolchain.Testsuite.TargetBoard
import RiscvToolchain.Python.Regex
import RiscvToolchain.Testsuite.AllowlistGen
import RiscvToolchain.Binutils.Table
import RiscvToolchain.Binutils.RiscvIp
import RiscvToolchain.Binutils.Immediates
import RiscvToolchain.Binutils.Pairs
import RiscvToolchain.Binutils.Reassemble
import RiscvToolchain.Binutils.RoundTrip
import RiscvToolchain.Semantics.ByteLanes
import RiscvToolchain.Newlib.DetectNull
import RiscvToolchain.Gcc.Bitmanip
import RiscvToolchain.Gcc.RotateLeft
import RiscvToolchain.Gcc.BitmanipPatterns
import RiscvToolchain.Gcc.DivConstCost
import RiscvToolchain.Gcc.AguBypass
import RiscvToolchain.Python.Substitute
import RiscvToolchain.ArchString.UpdateExts
import RiscvToolchain.Semantics.Groups
import RiscvToolchain.Release.DedupDir
import RiscvToolchain.ArchString.SpikeIsa
import RiscvToolchain.Semantics.Shell
import RiscvToolchain.Semantics.Interleave
import RiscvToolchain.Semantics.Guarded
import RiscvToolchain.Erratum.Templates
import RiscvToolchain.Erratum.VerifyFix
import RiscvToolchain.Release.Deploy
import RiscvToolchain.Release.DeployRuns
import RiscvToolchain.Sources.PrepareSources
import RiscvToolchain.HostDeps.Packages
import RiscvToolchain.HostDeps.PrepareHostDeps
import RiscvToolchain.HostDeps.PrepareMingwDeps
import RiscvToolchain.ArchString.QemuCpu
import RiscvToolchain.Binutils.EveryWord
import RiscvToolchain.Semantics.Make
import RiscvToolchain.Semantics.MakeRuns
import RiscvToolchain.Newlib.Makefile
import RiscvToolchain.Newlib.MergeNano
