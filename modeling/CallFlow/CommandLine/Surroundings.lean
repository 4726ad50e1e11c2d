import CallFlow.Failure

/-! What is around the folder that the command line works in: the usual directories under the root,
devices, and files of the system. What is not listed here is not there. -/

namespace CallFlow

inductive Directory where
  /-- The folder that the command line works in. -/
  | folder
  /-- Under the root, by its names from the innermost one on. -/
  | rooted (names : List String)
deriving DecidableEq, Repr

/-- What is opened like a file and keeps no text. -/
inductive Device where
  /-- Forgets what is written to it and has nothing to read. -/
  | null
  /-- Forgets what is written to it and never ends when it is read. -/
  | endless
  /-- Has no room for what is written to it and never ends when it is read. -/
  | full
  /-- The standard input, with nothing to read. -/
  | input
  | output
  | errors
  /-- The terminal, of which there is none. -/
  | terminal
deriving DecidableEq, Repr

inductive Entry where
  | directory (there : Directory)
  | device (device : Device)
  | file (text : String)
  /-- A file of the system, and whether it holds a text. -/
  | system (isText : Bool)
deriving DecidableEq, Repr

namespace Entry

/-- What stands for the text of a file of the system: neither a program nor options. -/
def systemText : String := "text of the system\n"

def text : Entry → Except FileFailure String
  | directory _ => .error .isDirectory
  | file text => .ok text
  | system isText => if isText then .ok systemText else .error .notText
  | device .terminal => .error .noDevice
  | device .endless | device .full => .error .outOfMemory
  | device _ => .ok ""

end Entry

namespace Directory

/-- Names that stand for directories of their own in a directory under the root. -/
def inside (names inner : List String) : List (String × Entry) :=
  inner.map fun name => (name, .directory (.rooted (name :: names)))

/-- A name that leads to a directory under the root. -/
def leading (name : String) (names : List String) : String × Entry :=
  (name, .directory (.rooted names))

def devices (named : List (String × Device)) : List (String × Entry) :=
  named.map fun (name, d) => (name, .device d)

def system (isText : Bool) (inner : List String) : List (String × Entry) :=
  inner.map fun name => (name, .system isText)

/-- What is known to be in a directory under the root. -/
def known : List String → List (String × Entry)
  | [] =>
    inside [] ["boot", "dev", "etc", "home", "media", "mnt", "opt", "proc", "root", "run", "srv",
        "sys", "tmp", "usr", "var"]
      ++ [leading "bin" ["bin", "usr"], leading "lib" ["lib", "usr"],
        leading "lib64" ["lib64", "usr"], leading "sbin" ["sbin", "usr"]]
  | ["dev"] =>
    inside ["dev"] ["mqueue", "pts", "shm"] ++ [leading "fd" ["fd", "self", "proc"]]
      ++ devices [("null", .null), ("zero", .endless), ("random", .endless),
        ("urandom", .endless), ("full", .full), ("stdin", .input), ("stdout", .output),
        ("stderr", .errors), ("tty", .terminal)]
  | ["etc"] =>
    inside ["etc"] ["default", "init.d", "opt", "profile.d", "security", "skel", "ssl"]
      ++ system true ["group", "hostname", "hosts", "os-release", "passwd", "resolv.conf"]
  | ["proc"] =>
    inside ["proc"] ["self", "sys"]
      ++ system true ["cpuinfo", "loadavg", "meminfo", "mounts", "stat", "uptime", "version"]
  | ["self", "proc"] =>
    inside ["self", "proc"] ["fd", "task"] ++ [("cwd", .directory .folder), leading "root" []]
      ++ system true ["cmdline", "comm", "environ", "limits", "maps", "mounts", "stat", "status"]
      ++ system false ["exe"]
  | ["fd", "self", "proc"] => devices [("0", .input), ("1", .output), ("2", .errors)]
  | ["sys"] =>
    inside ["sys"] ["block", "bus", "class", "dev", "devices", "firmware", "fs", "kernel", "module",
      "power"]
  | ["usr"] =>
    inside ["usr"] ["bin", "games", "include", "lib", "lib64", "libexec", "local", "sbin", "share",
      "src"]
  | ["bin", "usr"] => system false ["cat", "env", "ls", "sh"]
  | ["local", "usr"] =>
    inside ["local", "usr"] ["bin", "etc", "games", "include", "lib", "sbin", "share", "src"]
  | ["var"] =>
    inside ["var"] ["backups", "cache", "lib", "local", "log", "mail", "opt", "spool", "tmp"]
      ++ [leading "run" ["run"], leading "lock" ["lock", "run"]]
  | ["run"] => inside ["run"] ["lock"]
  | _ => []

def entry? : Directory → String → Option Entry
  | folder, _ => none
  | rooted names, name => (known names).lookup name

def parent : Directory → Directory
  | folder => rooted ["tmp"]
  | rooted names => rooted names.tail

/-- Whether no files can be created in a directory: what is told of processes is all there is. -/
def isFixed : Directory → Bool
  | folder => false
  | rooted names => decide (names.getLast? = some "proc")

/-- The one way to spell a file of a directory; a file of the folder goes by its name. -/
def spell : Directory → String → String
  | folder, name => name
  | rooted names, name => String.join (names.reverse.map ("/" ++ ·)) ++ "/" ++ name

end Directory

end CallFlow
