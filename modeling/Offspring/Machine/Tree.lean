import Offspring.Machine.Program
/-!
# The files of a machine

What there is before anything runs: the utilities with the folders that lead to them, the
devices, and places to work in.
-/

namespace Offspring.Machine

/-- A name with what it stands for. -/
def named (name : String) (e : Entry) : Octets × Entry :=
  (Octets.of name, e)

/-- A folder. -/
def folder (entries : List (Octets × Entry)) : Entry :=
  .folder false entries

/-- A folder in which nothing can be made. -/
def sealedFolder (entries : List (Octets × Entry)) : Entry :=
  .folder true entries

/-- Some folders without anything in them. -/
def bare (names : List String) : List (Octets × Entry) :=
  names.map fun n => named n .empty

/-- A link. -/
def link (name target : String) : Octets × Entry :=
  named name (.link (Octets.of target))

/-- A file that may not be run. -/
def plain (name : String) (lines : List String) : Octets × Entry :=
  named name (.file (lines.flatMap fun l => Octets.of l ++ ['\n']) false)

/-- The folder of the utilities. -/
def bin : Entry :=
  folder (names.map (fun n => named n (.file (contentOf n) true)) ++ [link "dash" "sh"])

/-- The users. -/
def users : List String :=
  ["root:x:0:0:root:/root:/bin/bash", "daemon:x:1:1:daemon:/usr/sbin:/usr/sbin/nologin",
    "bin:x:2:2:bin:/bin:/usr/sbin/nologin", "sys:x:3:3:sys:/dev:/usr/sbin/nologin",
    "sync:x:4:65534:sync:/bin:/bin/sync", "games:x:5:60:games:/usr/games:/usr/sbin/nologin",
    "man:x:6:12:man:/var/cache/man:/usr/sbin/nologin",
    "lp:x:7:7:lp:/var/spool/lpd:/usr/sbin/nologin",
    "mail:x:8:8:mail:/var/mail:/usr/sbin/nologin",
    "news:x:9:9:news:/var/spool/news:/usr/sbin/nologin",
    "uucp:x:10:10:uucp:/var/spool/uucp:/usr/sbin/nologin",
    "proxy:x:13:13:proxy:/bin:/usr/sbin/nologin",
    "www-data:x:33:33:www-data:/var/www:/usr/sbin/nologin",
    "backup:x:34:34:backup:/var/backups:/usr/sbin/nologin",
    "list:x:38:38:Mailing List Manager:/var/list:/usr/sbin/nologin",
    "irc:x:39:39:ircd:/run/ircd:/usr/sbin/nologin",
    "_apt:x:42:65534::/nonexistent:/usr/sbin/nologin",
    "nobody:x:65534:65534:nobody:/nonexistent:/usr/sbin/nologin"]

/-- All the files. -/
def tree : Files :=
  ⟨folder (
    [link "bin" "usr/bin", link "sbin" "usr/sbin", link "lib" "usr/lib",
      link "lib64" "usr/lib64",
      named "usr" (folder (named "bin" bin ::
        named "local" (folder (bare ["bin", "etc", "games", "include", "lib", "sbin", "share",
          "src"])) ::
        bare ["games", "include", "lib", "lib64", "libexec", "sbin", "share", "src"])),
      named "etc" (folder [plain "passwd" users, plain "group" ["root:x:0:"],
        plain "hosts" ["127.0.0.1\tlocalhost"]]),
      named "dev" (folder [named "null" (.device .null), named "zero" (.device .zero),
        named "full" (.device .full), named "random" (.device .zero),
        named "urandom" (.device .zero), named "shm" .empty, link "fd" "/proc/self/fd",
        link "stdin" "/proc/self/fd/0", link "stdout" "/proc/self/fd/1",
        link "stderr" "/proc/self/fd/2"]),
      named "proc" (sealedFolder [named "self" (sealedFolder
        [plain "status" [], named "fd" (sealedFolder [])])]),
      named "var" (folder (bare ["backups", "cache", "lib", "local", "log", "mail", "opt",
        "spool", "tmp"])),
      named "sys" (sealedFolder [])] ++
    bare ["boot", "home", "media", "mnt", "opt", "root", "run", "srv", "tmp"])⟩

end Offspring.Machine
