import Rustils.Winargv.Alias
import Rustils.Winargv.RoundTrip
import Rustils.Winargv.Posix
import Rustils.Dbus.Faithful
import Rustils.Dbus.MarshalFaults
import Rustils.Dbus.Poison
import Rustils.Net.Race
import Rustils.Net.Probe
import Rustils.Net.UnixAddr
import Rustils.Net.ReadTimeout
import Rustils.Fs.Ownership
import Rustils.Fs.Residue
import Rustils.Fs.ReadDir
import Rustils.WinFs.Symlink
import Rustils.WinFs.ReadLink
import Rustils.WinFs.Rename
import Rustils.Mock.Delivery
import Rustils.MockFs.Exclusive
import Rustils.MockFs.Paths
import Rustils.MockNet.Consistency
import Rustils.MockNet.Ports
import Rustils.Process.Reap
import Rustils.Process.Target
import Rustils.Process.Environ
import Rustils.Process.Grouped
import Rustils.Process.Wiring
import Rustils.Process.WaitAnyRefines
import Rustils.Process.Deadline
import Rustils.Security.Credential
import Rustils.Security.Seccomp
import Rustils.Security.SecretService
import Rustils.Security.Damage
import Rustils.Coreutils.Rpar
import Rustils.Coreutils.Timestamps
import Rustils.Coreutils.Rtail
import Rustils.Dbus.Address
import Rustils.Dbus.Serials
import Rustils.Fs.CreateDir
import Rustils.Mock.Pty
import Rustils.Process.Zombie
import Rustils.Coreutils.Rgrep
import Rustils.Coreutils.RcpOverlap
import Rustils.Coreutils.Rmv
import Rustils.Coreutils.FindName
import Rustils.Dbus.SelfDelimiting
import Rustils.Coreutils.Rwc
import Rustils.Coreutils.Rsort
import Rustils.Coreutils.RgrepCase
import Rustils.Security.Random
import Rustils.Net.Tun
import Rustils.Coreutils.Ls
import Rustils.Lib.RelyGuarantee
import Rustils.Lib.Bracket
import Rustils.Pty.ConPty
import Rustils.Pty.ConPtyMoves
import Rustils.Pty.ConPtyClose
import Rustils.Pty.ConPtyOnce
import Rustils.Pty.ConPtyRace
import Rustils.Term.Terminal
import Rustils.Term.Linux
import Rustils.Term.LinuxRaw
import Rustils.Term.Windows
import Rustils.Term.WindowsRaw
import Rustils.Term.WindowsConsole
import Rustils.Term.MockTerminal
import Rustils.Lib.Progress
import Rustils.Coreutils.Rtee
import Rustils.Process.Ends
import Rustils.Process.Pipeline
import Rustils.Security.Sandbox
import Rustils.Security.Confinement
import Rustils.Process.Signals
import Rustils.WinFs.Listing
import Rustils.Dbus.Handshake
import Rustils.Net.WinListen
import Rustils.Process.HostRuns
import Rustils.Pty.LinuxConfined
import Rustils.Pty.LinuxMoves
import Rustils.Pty.LinuxSessions
