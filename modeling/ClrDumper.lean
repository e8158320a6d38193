import ClrDumper.AmsiRedirection
import ClrDumper.BorderTable
import ClrDumper.CallbackRegistration
import ClrDumper.CompatibleBorders
import ClrDumper.DetachTeardown
import ClrDumper.DumpFidelity
import ClrDumper.DumpPaths
import ClrDumper.FailedSearch
import ClrDumper.FileNames
import ClrDumper.Launches
import ClrDumper.ModuleNames
import ClrDumper.PlainSearch
import ClrDumper.ProcessWalk
import ClrDumper.Reports
import ClrDumper.ScriptArguments
import ClrDumper.SessionRefinement
import ClrDumper.TableAllocation
import ClrDumper.WildcardAgreement
import ClrDumper.WildcardSoundness
import ClrDumper.WildcardTermination
